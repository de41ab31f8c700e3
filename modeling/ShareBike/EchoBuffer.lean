import ShareBike.Echo
import ShareBike.Lib.CStrings

/-!
# The buffer of the echo server

The accesses of `do_echo_handler` and `do_echo_response` to `send_buf`. The first
puts the bytes that were read between `->` and a NUL. The second does not know their
number: it writes what comes before the first NUL.
-/
namespace ShareBike.Echo
open ShareBike.Lib

/-- `do_echo_handler` on `send_buf` when `read` delivers `chunk`: the buffer that it
leaves, and whether the client quits. -/
def Checked.doEchoHandler (sendBuf chunk : List UInt8) :
    Except BadAccess (List UInt8 × Bool) := do
  let buf ← Checked.store sendBuf 0 arrow
  let buf ← Checked.store buf arrow.length chunk
  let buf ← Checked.store buf (arrow.length + chunk.length) [0]
  -- the text for `printf`
  let _ ← Checked.strlen (buf.drop arrow.length)
  let quits ← Checked.startsWithCase (buf.drop arrow.length) quit
  return (buf, quits)

/-- `do_echo_response` on `send_buf`: the bytes that `write` gets. -/
def Checked.doEchoResponse (sendBuf : List UInt8) : Except BadAccess (List UInt8) := do
  let len ← Checked.strlen sendBuf
  Checked.load len sendBuf

/-- `do_echo_handler` stays inside `send_buf` and leaves there a text that the next
`do_echo_response` gives to `write` as `->` and the chunk. -/
def EchoedExactly (sys : Sys) (fd id : ℕ) (stat : ConnectStat) (chunk : List UInt8)
    (s : EchoServer) : Prop :=
  ∃ buf, Checked.doEchoHandler stat.sendBuf chunk = .ok (buf, false) ∧
    (doEchoHandler sys fd (some id) s).app.stats id = some { stat with sendBuf := buf } ∧
    Checked.doEchoResponse buf = .ok (arrow ++ chunk) ∧
    ∀ (sys' : Sys) (s' : EchoServer), sys'.write = .all →
      s'.app.stats id = some { stat with sendBuf := buf } →
      (doEchoResponse sys' fd (some id) s').app.writes =
        append s'.app.writes (s'.app.conn fd) (arrow ++ chunk)

variable {sys : Sys} {fd id : ℕ} {stat : ConnectStat} {chunk sendBuf : List UInt8}
  {s : EchoServer}

/-- What stands in `send_buf` after a chunk was read into it. -/
def holding (chunk sendBuf : List UInt8) : List UInt8 :=
  (arrow ++ chunk) ++ 0 :: sendBuf.drop (arrow.length + chunk.length + 1)

lemma drop_arrow_holding : (holding chunk sendBuf).drop arrow.length =
    chunk ++ 0 :: sendBuf.drop (arrow.length + chunk.length + 1) := by
  rw [holding, List.append_assoc, List.drop_left]

/-- The chunk and the NUL may as well be stored at once. -/
lemma overwrite_chunk (chunk sendBuf : List UInt8) :
    overwrite (overwrite sendBuf 0 arrow) arrow.length (chunk ++ [0]) =
      holding chunk sendBuf := by
  rw [overwrite_zero, overwrite_append, List.drop_drop, holding]
  simp [Nat.add_assoc]

/-- The largest chunk leaves one byte of the buffer for the NUL. -/
lemma checked_doEchoHandler (hbuf : sendBuf.length = BUFLEN)
    (hlen : chunk.length ≤ BUFLEN - arrow.length - 1) :
    Checked.doEchoHandler sendBuf chunk =
      .ok (holding chunk sendBuf, startsWithCase chunk quit) := by
  have harrow : arrow.length = 2 := rfl
  have hsize : BUFLEN = 1024 := rfl
  have hfirst : Checked.store sendBuf 0 arrow = .ok (arrow ++ sendBuf.drop arrow.length) :=
    Checked.store_zero (by omega)
  have hsecond : Checked.store (arrow ++ sendBuf.drop arrow.length) arrow.length chunk =
      .ok ((arrow ++ chunk) ++ sendBuf.drop (arrow.length + chunk.length)) := by
    rw [Checked.store_append (by rw [List.length_drop]; omega), List.drop_drop]
  have hthird : Checked.store ((arrow ++ chunk) ++ sendBuf.drop (arrow.length + chunk.length))
      (arrow.length + chunk.length) [0] = .ok (holding chunk sendBuf) := by
    have hroom : [(0 : UInt8)].length ≤ (sendBuf.drop (arrow ++ chunk).length).length := by
      rw [List.length_drop, List.length_append, List.length_singleton]
      omega
    rw [← List.length_append, Checked.store_append hroom, List.drop_drop, holding,
      List.append_assoc, List.length_append]
    rfl
  have hquit : (0 : UInt8) ∉ quit := by decide
  simp only [Checked.doEchoHandler, hfirst, hsecond, hthird, bind, Except.bind,
    drop_arrow_holding, Checked.strlen_append_nul, Checked.startsWithCase_append_nul hquit,
    pure, Except.pure]

lemma checked_doEchoResponse (chunk sendBuf : List UInt8) :
    Checked.doEchoResponse (holding chunk sendBuf) = .ok (cstr (arrow ++ chunk)) :=
  Checked.string_append_nul (arrow ++ chunk) _

/-- The server leaves the same bytes in the buffer. -/
lemma sendBuf_doEchoHandler (hstat : s.app.stats id = some stat) (hread : sys.read = .data chunk)
    (hquit : startsWithCase chunk quit = false) :
    (doEchoHandler sys fd (some id) s).app.stats id =
      some { stat with sendBuf := holding chunk stat.sendBuf } := by
  have hstarts : startsWithCase ((holding chunk stat.sendBuf).drop arrow.length) quit = false := by
    rw [drop_arrow_holding, startsWithCase_append_nul (by decide), hquit]
  simp only [doEchoHandler, Option.bind_some, hstat, Option.map_some, hread, overwrite_chunk,
    hstarts]
  simp [setSendBuf]

lemma sysWrite_all (h : sys.write = .all) (fd : ℕ) (s : EchoServer) (bytes : List UInt8) :
    sysWrite sys fd s bytes = ((bytes.length : ℤ), { s with
      app := { s.app with writes := append s.app.writes (s.app.conn fd) bytes } }) := by
  simp [sysWrite, h, WriteRes.count]

lemma sysWrite_error (h : sys.write = .error) (fd : ℕ) (s : EchoServer) (bytes : List UInt8) :
    sysWrite sys fd s bytes = (-1, s) := by
  have hne : ¬ (-1 : ℤ) = bytes.length := by omega
  simp only [sysWrite, h, WriteRes.count]
  rw [if_neg hne]

/-- A complete write of `do_echo_response`. -/
lemma writes_doEchoResponse (fd : ℕ) (hstat : s.app.stats id = some stat)
    (hwrite : sys.write = .all)
    (hne : cstr stat.sendBuf ≠ []) :
    (doEchoResponse sys fd (some id) s).app.writes =
      append s.app.writes (s.app.conn fd) (cstr stat.sendBuf) := by
  have hpos : ((cstr stat.sendBuf).length : ℤ) > 0 :=
    Int.natCast_pos.mpr (List.length_pos_of_ne_nil hne)
  simp only [doEchoResponse, Option.bind_some, hstat, sysWrite_all hwrite]
  rw [if_pos hpos]

/-- Every chunk that `read` can deliver and that does not start with `quit` is echoed
exactly if it has no NUL in it. -/
theorem echoed_exactly_iff (fd : ℕ) (hstat : s.app.stats id = some stat)
    (hbuf : stat.sendBuf.length = BUFLEN) (hread : sys.read = .data chunk)
    (hlen : chunk.length ≤ BUFLEN - arrow.length - 1)
    (hquit : startsWithCase chunk quit = false) :
    EchoedExactly sys fd id stat chunk s ↔ 0 ∉ chunk := by
  have haccess := checked_doEchoHandler hbuf hlen
  have hnul : (0 : UInt8) ∉ arrow ++ chunk ↔ 0 ∉ chunk := by
    simp [arrow]
  rw [hquit] at haccess
  constructor
  · rintro ⟨buf, hrecv, -, hresp, -⟩
    cases haccess.symm.trans hrecv
    rw [checked_doEchoResponse, Except.ok.injEq, cstr_eq_self_iff] at hresp
    exact hnul.mp hresp
  · intro h
    have hcstr : cstr (arrow ++ chunk) = arrow ++ chunk := cstr_eq_self_iff.mpr (hnul.mpr h)
    refine ⟨holding chunk stat.sendBuf, haccess, sendBuf_doEchoHandler hstat hread hquit, ?_, ?_⟩
    · rw [checked_doEchoResponse, hcstr]
    · intro sys' s' hwrite hstat'
      have hsent : cstr (holding chunk stat.sendBuf) = arrow ++ chunk := by
        rw [holding, cstr_append_nul, hcstr]
      have hw := writes_doEchoResponse fd hstat' hwrite (by rw [hsent]; simp [arrow])
      rwa [hsent] at hw

/-- A server that has just accepted a client as descriptor 5. -/
def accepted : EchoServer := acceptConnection ⟨some 5, .error, .error⟩ (start 16 3 0).server

/-- The `ConnectStat` of this client. -/
def acceptedStat : ConnectStat := ⟨5, List.replicate BUFLEN 0⟩

/-- `hi` -/
theorem echoed_exactly_iff_hi :
    EchoedExactly ⟨none, .data [104, 105], .all⟩ 5 1 acceptedStat [104, 105] accepted :=
  (echoed_exactly_iff 5 rfl List.length_replicate rfl (by decide) (by decide)).mpr
    (by decide)

/-- Of `a`, a NUL and `b` only the `a` comes back. -/
theorem nul_cuts_echo :
    startsWithCase [97, 0, 98] quit = false ∧
    (Checked.doEchoHandler acceptedStat.sendBuf [97, 0, 98] >>= fun r =>
      Checked.doEchoResponse r.1) = .ok (arrow ++ [97]) ∧
    ¬ EchoedExactly ⟨none, .data [97, 0, 98], .all⟩ 5 1 acceptedStat [97, 0, 98] accepted := by
  have hrecv : Checked.doEchoHandler acceptedStat.sendBuf [97, 0, 98] =
      .ok (holding [97, 0, 98] acceptedStat.sendBuf, false) :=
    checked_doEchoHandler List.length_replicate (by decide)
  have hcut := checked_doEchoResponse [97, 0, 98] acceptedStat.sendBuf
  refine ⟨by decide, ?_, ?_⟩
  · rw [hrecv]
    exact hcut
  · rintro ⟨buf, hrecv', -, hresp, -⟩
    cases hrecv.symm.trans hrecv'
    exact absurd (hcut.symm.trans hresp) (by decide)

end ShareBike.Echo
