import ShareBike.HttpCommit
import ShareBike.HttpStrings
import ShareBike.Lib.Printf

/-!
# The response to a commit request

`commit_respone_handler` prints its page into one local buffer, puts the header and
the length of the page into another, and appends the page there.
-/
namespace ShareBike.Http
open ShareBike.Lib

/-- `main_header` -/
def mainHeader : List UInt8 := utf8
  "HTTP/1.0 200 OK\r\nServer: Martin Server\r\nContent-Type: text/html\r\nConnection: Close\r\n"

/-- `commit_content`, line by line -/
def commitContent : List UInt8 := [
  "\t\t\t\t\t<html lang=\"zh-CN\">\n",
  "\t\t\t\t\t<head>\n",
  "\t\t\t\t\t<meta content=\"text/html; charset=utf-8\" http-equiv=\"Content-Type\">\n",
  "\t\t\t\t\t<title>This is a test</title>\n",
  "\t\t\t\t\t</head>\n",
  "\t\t\t\t\t<body>\n",
  "\t\t\t\t\t<div align=center height=\"500px\" >\n",
  "\t\t\t\t\t<br/><br/><br/>\n",
  "\t\t\t\t\t<h2>欢迎&nbsp;%s &nbsp;,你的年龄是&nbsp;%s！</h2><br/><br/>\n",
  "\t\t\t\t\t</div>\n",
  "\t\t\t\t\t</body>\n",
  "\t\t\t\t\t</html>\n"].flatMap utf8

/-- `Content-Length: ` -/
def contentLength : List UInt8 := utf8 "Content-Length: "

/-- The local buffers of the handler; they are not initialised. -/
structure Locals where
  sendbuffer : List UInt8
  content : List UInt8
  contentLen : List UInt8
  sendbuffer_length : sendbuffer.length = 4096
  content_length : content.length = 4096
  contentLen_length : contentLen.length = 64

/-- The bytes that `commit_respone_handler` gives to `write`. -/
def Checked.commitResponeHandler (l : Locals) (stat : ConnectStat) :
    Except BadAccess (List UInt8) := do
  let name ← Checked.string (stat.bytes.drop Field.name.offset)
  let age ← Checked.string (stat.bytes.drop Field.age.offset)
  let (content, len) ←
    Checked.snprintf l.content 4096 (format commitContent [.str name, .str age])
  let sendbuffer ← Checked.strcpy l.sendbuffer (mainHeader ++ [0])
  let (contentLen, _) ←
    Checked.snprintf l.contentLen 64 (format (utf8 "Content-Length: %d\r\n\r\n") [.int len])
  let sendbuffer ← Checked.strcat sendbuffer contentLen
  let sendbuffer ← Checked.strcat sendbuffer content
  -- the text for `printf`, and the bytes for `write`
  let _ ← Checked.strlen sendbuffer
  let n ← Checked.strlen sendbuffer
  Checked.load n sendbuffer

/-- `%s` -/
def percentS : List UInt8 := [37, 115]

/-- The page is `commit_content` with the two strings in the places of its `%s`. -/
def IsCommitPage (body name age : List UInt8) : Prop :=
  ∃ before between after,
    commitContent = before ++ (percentS ++ (between ++ (percentS ++ after))) ∧
    37 ∉ before ∧ 37 ∉ between ∧ 37 ∉ after ∧
    body = before ++ (name ++ (between ++ (age ++ after)))

/-- The response is the header, a `Content-Length` that is the number of bytes of the
body, a blank line and the body. -/
def Carries (response body : List UInt8) : Prop :=
  ∃ digits, response = mainHeader ++ (contentLength ++ (digits ++ (blankLine ++ body))) ∧
    (∀ b ∈ digits, isDigit b = true) ∧ atoi digits = body.length

variable {stat : ConnectStat} {name age : List UInt8}

/-- The parts of `commit_content`. -/
lemma commitContent_parts : ∃ before between after,
    commitContent = before ++ (percentS ++ (between ++ (percentS ++ after))) ∧
    (37 ∉ before ∧ 37 ∉ between ∧ 37 ∉ after) ∧ (0 ∉ before ∧ 0 ∉ between ∧ 0 ∉ after) ∧
    before.length + between.length + after.length = 338 := by
  refine ⟨commitContent.take 252, (commitContent.drop 254).take 29, commitContent.drop 285, ?_⟩
  decide +kernel

lemma format_percentS (s fmt : List UInt8) (args : List Arg) :
    format (percentS ++ fmt) (.str s :: args) = s ++ format fmt args :=
  format_str s fmt args

/-- The page that is printed into `content`. -/
lemma commitPage (hname : 0 ∉ name) (hage : 0 ∉ age) :
    IsCommitPage (format commitContent [.str name, .str age]) name age ∧
      0 ∉ format commitContent [.str name, .str age] ∧
      (format commitContent [.str name, .str age]).length = 338 + name.length + age.length := by
  obtain ⟨before, between, after, hparts, hplain, hnul, hlen⟩ := commitContent_parts
  have hpage : format commitContent [.str name, .str age] =
      before ++ (name ++ (between ++ (age ++ after))) := by
    rw [hparts, format_append hplain.1, format_percentS, format_append hplain.2.1,
      format_percentS, format_text hplain.2.2]
  refine ⟨⟨before, between, after, hparts, hplain.1, hplain.2.1, hplain.2.2, hpage⟩, ?_, ?_⟩
  · rw [hpage]
    simp [hnul, hname, hage]
  · rw [hpage]
    simp only [List.length_append]
    omega

/-- The line that is printed into `content_len`. -/
lemma format_contentLength (n : ℕ) :
    format (utf8 "Content-Length: %d\r\n\r\n") [.int n] =
      contentLength ++ (decimal n ++ blankLine) := by
  have hfmt : utf8 "Content-Length: %d\r\n\r\n" = contentLength ++ 37 :: 100 :: blankLine := by
    decide +kernel
  have hplain : 37 ∉ contentLength := by decide +kernel
  rw [hfmt, format_append hplain, format_int, format_text (by decide)]

lemma nul_notMem_contentLength (n : ℕ) : 0 ∉ contentLength ++ (decimal n ++ blankLine) := by
  have hplain : 0 ∉ contentLength := by decide +kernel
  simp [hplain, nul_notMem_decimal n, blankLine]

lemma length_contentLength_le {n : ℕ} (h : n < 10 ^ 4) :
    (contentLength ++ (decimal n ++ blankLine)).length ≤ 24 := by
  have hword : contentLength.length = 16 := by decide +kernel
  have hdigits : (decimal n).length ≤ 4 := length_decimal_le (by decide) h
  have hblank : blankLine.length = 4 := rfl
  simp only [List.length_append]
  omega

/-- A string that ends inside the structure. -/
lemma checked_text {f : Field} (hf : f.offset + 64 ≤ sizeofConnectStat)
    (h : (stat.text f).length ≤ 63) :
    Checked.string (stat.bytes.drop f.offset) = .ok (stat.text f) := by
  have hlen : (stat.text f).length < (stat.bytes.drop f.offset).length := by
    rw [List.length_drop, stat.length_eq]
    omega
  exact Checked.string_of_lt hlen

/-- Strings of at most 63 bytes leave room in all buffers. -/
lemma checked_commitResponeHandler (l : Locals) (hn : (stat.text .name).length ≤ 63)
    (ha : (stat.text .age).length ≤ 63) :
    ∃ response body, Checked.commitResponeHandler l stat = .ok response ∧
      Carries response body ∧ IsCommitPage body (stat.text .name) (stat.text .age) := by
  have hname : 0 ∉ stat.text .name := nul_notMem_cstr _
  have hage : 0 ∉ stat.text .age := nul_notMem_cstr _
  obtain ⟨hpage, hpagenul, hpagelen⟩ := commitPage hname hage
  generalize hbody : format commitContent [.str (stat.text .name), .str (stat.text .age)] = body
    at hpage hpagenul hpagelen
  have hdigits : ∀ b ∈ decimal body.length, isDigit b = true := by
    intro b hb
    obtain ⟨hlow, hhigh⟩ := digit_of_mem_decimal hb
    simp [isDigit, hlow, hhigh]
  have hheader : mainHeader.length = 84 := by decide +kernel
  have hline : (contentLength ++ (decimal body.length ++ blankLine)).length ≤ 24 :=
    length_contentLength_le (by omega)
  have hsource : Checked.Holds 85 mainHeader (mainHeader ++ [0]) :=
    ⟨by decide +kernel, by decide +kernel, [], rfl⟩
  obtain ⟨content, hprint, hcontent⟩ := Checked.snprintf_holds hpagenul
    (by omega : body.length < 4096) l.content_length.ge
  obtain ⟨start, hcopy, hstart⟩ := Checked.strcpy_holds hsource
    (by rw [l.sendbuffer_length]; omega : mainHeader.length < l.sendbuffer.length)
  obtain ⟨contentLen, hprint', hcontentLen⟩ := Checked.snprintf_holds
    (nul_notMem_contentLength body.length) (by omega) l.contentLen_length.ge
  rw [l.sendbuffer_length] at hstart
  obtain ⟨head, hcat, hhead⟩ := Checked.strcat_holds hstart hcontentLen (by omega)
  obtain ⟨sendbuffer, hcat', hsend⟩ := Checked.strcat_holds hhead hcontent
    (by rw [List.length_append]; omega)
  refine ⟨mainHeader ++ (contentLength ++ (decimal body.length ++ blankLine)) ++ body, body, ?_,
    ⟨decimal body.length, by simp, hdigits, atoi_decimal _⟩, hpage⟩
  simp only [Checked.commitResponeHandler, checked_text (by decide) hn,
    checked_text (by decide) ha, hbody, hprint, hcopy, format_contentLength, hprint', hcat,
    hcat', hsend.strlen, hsend.load, bind, Except.bind]

/-- A client that is registered stays registered when its entry is modified. -/
lemma interest_register {s : Server} {fd : ℕ} (he : s.serverEpfd = s.mainEpfd)
    (ho : s.isOpen fd = true) (hi : s.interest fd ≠ none) (hfd : stat.get .fd = fd) :
    (s.register .EPOLL_CTL_MOD stat).interest fd = some (stat.get .events, stat.get .data) := by
  obtain ⟨old, hold⟩ := Option.ne_none_iff_exists'.mp hi
  subst hfd
  rw [Server.register, epollCtl_interest he ho, epollCtl_mod hold]
  exact Function.update_self ..

/-- After a response the client is read from again. -/
lemma interest_respond {s : Server} {p fd : ℕ} (page : Page) (he : s.serverEpfd = s.mainEpfd)
    (ho : s.isOpen fd = true) (hi : s.interest fd ≠ none) (hfd : stat.get .fd = fd) :
    (s.respond p stat page).interest fd = some (EPOLLIN, stat.get .data) := by
  have hfd' : (stat.set .events EPOLLIN).get .fd = fd := (get_set_of_ne (by decide)).trans hfd
  have hdata : (stat.set .events EPOLLIN).get .data = stat.get .data := get_set_of_ne (by decide)
  have hevents : (stat.set .events EPOLLIN).get .events = EPOLLIN := get_set_self (by decide)
  have hagain := interest_register (s := Server.setStat
    { s with sent := (stat.get .fd, page) :: s.sent } p (stat.set .events EPOLLIN)) he ho hi hfd'
  rw [hevents, hdata] at hagain
  exact hagain

/-- Every well formed commit request, whatever the connection held before: its name and
its age are stored, and the response is the page with them, of the length that it says. It
is sent to the client, which is then waited for again. -/
theorem commit_answered (f : CommitForm) (code : Code) {s : Server} {p : ℕ}
    (hp : s.heap p = some stat) :
    ∃ t stat', s.doHttpRequest code (.data f.bytes) p = .ok t ∧ t.heap p = some stat' ∧
      stat'.text .name = f.name ∧ stat'.text .age = f.age ∧
      t.doHttpRespone code p = .ok (t.commitResponeHandler p stat') ∧
      (t.commitResponeHandler p stat').sent = (stat.get .fd, .commit f.name f.age) :: s.sent ∧
      (t.commitResponeHandler p stat').heap p = some (stat'.set .events EPOLLIN) ∧
      (s.serverEpfd = s.mainEpfd → s.isOpen (stat.get .fd) = true →
        s.interest (stat.get .fd) ≠ none →
        (t.commitResponeHandler p stat').interest (stat.get .fd) =
          some (EPOLLIN, stat.get .data)) ∧
      ∀ l : Locals, ∃ response body, Checked.commitResponeHandler l stat' = .ok response ∧
        Carries response body ∧ IsCommitPage body f.name f.age := by
  have htext : cstr f.bytes = f.bytes := cstr_eq_self_iff.mpr f.nul_notMem_bytes
  have hcommit : isCommit (cstr f.bytes) = true := by rw [htext, f.isCommit_bytes]
  have hparse : parse (cstr f.bytes) = some f.request := by rw [htext, f.parse_bytes]
  obtain ⟨t, ht, hreq, hheap, hresp⟩ := doHttpRequest_commit code hcommit hparse hp
  have hname : (stat.storeAll (f.request.stores code)).text .name = f.name :=
    text_stores_name f.name_ne f.nul_notMem_name f.name_le
  have hage : (stat.storeAll (f.request.stores code)).text .age = f.age :=
    text_stores_age f.age_ne f.nul_notMem_age f.age_le
  have hfd : (stat.storeAll (f.request.stores code)).get .fd = stat.get .fd := get_fd_stores _
  have hdata : (stat.storeAll (f.request.stores code)).get .data = stat.get .data :=
    get_data_stores (f.name_le.trans (by decide)) (f.age_le.trans (by decide))
  refine ⟨t, _, hreq, hheap, hname, hage, hresp, ?_, ?_, ?_, fun l => ?_⟩
  · rw [← hfd, ← hname, ← hage, ht]
    rfl
  · rw [ht]
    exact Function.update_self ..
  · intro he ho hi
    have hasked := interest_register (s := s.setStat p (stat.storeAll (f.request.stores code)))
      he ho hi hfd
    have hstill : t.interest (stat.get .fd) ≠ none := by
      rw [ht, hasked]
      exact Option.some_ne_none _
    rw [← hdata]
    exact interest_respond _ (by rw [ht]; exact he) (by rw [ht]; exact ho) hstill hfd
  · have hbuilt := checked_commitResponeHandler l
      (by rw [hname]; exact f.name_le) (by rw [hage]; exact f.age_le)
    rwa [hname, hage] at hbuilt

/-- A browser's request, with a look-alike of the first field in its header. -/
def sampleForm : CommitForm where
  post := utf8 "POST"
  gap := utf8 " /"
  commit := utf8 "commit"
  header := utf8 " HTTP/1.1\r\nReferer: /?name=x"
  name := utf8 "bob"
  age := utf8 "42"
  post_eq := by decide +kernel
  gap_all := List.all_eq_true.mp (by decide +kernel)
  commit_eq := by decide +kernel
  header_nul := by decide +kernel
  header_blank := by decide +kernel
  name_all := List.all_eq_true.mp (by decide +kernel)
  name_ne := by decide +kernel
  name_le := by decide +kernel
  age_all := List.all_eq_true.mp (by decide +kernel)
  age_ne := by decide +kernel
  age_le := by decide +kernel

/-- A client that has committed another name before, and is registered. -/
def named5 : ConnectStat := named.set .data 0x2000

def registered5 : Server :=
  { serverWith named5 with
    isOpen := fun _ => true
    interest := fun fd => if fd = 5 then some (EPOLLIN, 0x2000) else none }

/-- The answer to it. -/
theorem commit_answered_bob :
    sampleForm.bytes.length ≤ 4095 ∧
    ∃ t stat', registered5.doHttpRequest sampleCode (.data sampleForm.bytes) 0x2000 = .ok t ∧
      t.heap 0x2000 = some stat' ∧
      stat'.text .name = utf8 "bob" ∧ stat'.text .age = utf8 "42" ∧
      t.doHttpRespone sampleCode 0x2000 = .ok (t.commitResponeHandler 0x2000 stat') ∧
      (t.commitResponeHandler 0x2000 stat').sent = [(5, .commit (utf8 "bob") (utf8 "42"))] ∧
      (t.commitResponeHandler 0x2000 stat').interest 5 = some (EPOLLIN, 0x2000) ∧
      ∀ l : Locals, ∃ response body, Checked.commitResponeHandler l stat' = .ok response ∧
        Carries response body ∧ IsCommitPage body (utf8 "bob") (utf8 "42") := by
  have hheap : registered5.heap 0x2000 = some named5 := heap_serverWith named5
  have hfd : named5.get .fd = 5 := by decide +kernel
  have hdata : named5.get .data = 0x2000 := by decide +kernel
  obtain ⟨t, stat', hreq, hstat, hname, hage, hresp, hsent, -, harmed, hbuilt⟩ :=
    commit_answered sampleForm sampleCode hheap
  rw [hfd] at hsent harmed
  rw [hdata] at harmed
  exact ⟨by decide +kernel, t, stat', hreq, hstat, hname, hage, hresp, hsent,
    harmed rfl rfl (Option.some_ne_none _), hbuilt⟩

end ShareBike.Http
