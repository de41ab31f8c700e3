import ShareBike.HttpRequestFields
import ShareBike.Lib.CStrings

/-!
# The searches in a request

The accesses of `do_http_request` to the text that it has read. Of its three searches
the one for the blank line is not checked for `NULL` before its result is used.
-/
namespace ShareBike.Http
open ShareBike.Lib

/-- `if (end = strstr(pos, word))` and the scan of the run after the word. -/
def Checked.scanField (word : List UInt8) (inRun : UInt8 → Bool) (pos : Option (List UInt8)) :
    Except BadAccess (List UInt8 × List UInt8) := do
  let mem ← Checked.deref pos
  match ← Checked.strstr word mem with
  | some found =>
    let run ← Checked.run inRun (found.drop word.length)
    return (found.drop word.length, run)
  | none => return (mem, [])

/-- The fields of a commit request, from what the search for the blank line has returned. -/
def Checked.parseCommit (pos : Option (List UInt8)) : Except BadAccess Request := do
  let (pos, name) ← Checked.scanField nameWord isAlnum pos
  let (_, age) ← Checked.scanField ageWord isDigit (some pos)
  return ⟨.commitResponeHandler, name, age⟩

/-- What `do_http_request` reads of `buf`, up to the copies into the `ConnectStat`. -/
def Checked.doHttpRequest (buf : List UInt8) : Except BadAccess Request := do
  -- the text for `printf`
  let _ ← Checked.strlen buf
  if ← Checked.startsWithCase buf getWord then return ⟨.welcomeResponseHandler, [], []⟩
  else if ← Checked.startsWithCase buf postWord then
    let pos ← Checked.skipWhile isSpaceOrSlash (buf.drop postWord.length)
    if ← Checked.startsWithCase pos commitWord then
      let pos ← Checked.strstr blankLine buf
      Checked.parseCommit pos
    else return ⟨.welcomeResponseHandler, [], []⟩
  else return ⟨.welcomeResponseHandler, [], []⟩

variable {text word pos : List UInt8} {inRun : UInt8 → Bool}

lemma drop_append_nul {n : ℕ} (h : n ≤ text.length) (rest : List UInt8) :
    (text ++ 0 :: rest).drop n = text.drop n ++ 0 :: rest := List.drop_append_of_le_length h

/-- A search and a scan in a text stay inside it. -/
lemma checked_scanField (word : List UInt8) (inRun : UInt8 → Bool) (hword : 0 ∉ word)
    (hrun : inRun 0 = false) (hpos : 0 ∉ pos) (rest : List UInt8) :
    Checked.scanField word inRun (some (pos ++ 0 :: rest)) =
      .ok ((scanField word inRun pos).1 ++ 0 :: rest, (scanField word inRun pos).2) := by
  simp only [Checked.scanField, Checked.deref, Checked.strstr_append_nul hword hpos, bind,
    Except.bind, scanField]
  cases hfound : strstr pos word with
  | none => rfl
  | some found =>
    have hlen : word.length ≤ found.length := (strstr_found hfound).1.length_le
    simp only [Option.map_some, drop_append_nul hlen, Checked.run_append_nul hrun]
    rfl

/-- The position after a search is a rest of the text. -/
lemma scanField_suffix (word : List UInt8) (inRun : UInt8 → Bool) (pos : List UInt8) :
    (scanField word inRun pos).1 <:+ pos := by
  rw [scanField]
  cases hfound : strstr pos word with
  | none => exact List.suffix_rfl
  | some found => exact (List.drop_suffix _ _).trans (strstr_found hfound).2

lemma checked_parseCommit (hpos : 0 ∉ pos) (rest : List UInt8) :
    Checked.parseCommit (some (pos ++ 0 :: rest)) = .ok (parseCommit pos) := by
  have hafter : 0 ∉ (scanField nameWord isAlnum pos).1 :=
    fun h => hpos ((scanField_suffix nameWord isAlnum pos).subset h)
  have hname := checked_scanField nameWord isAlnum (by decide) (by decide) hpos rest
  have hage := checked_scanField ageWord isDigit (by decide) (by decide) hafter rest
  simp only [Checked.parseCommit, hname, bind, Except.bind, hage]
  rfl

/-- On a text, `parse` is what the code computes, and its `none` is the access through
`NULL`. -/
theorem checked_doHttpRequest (htext : 0 ∉ text) (rest : List UInt8) :
    Checked.doHttpRequest (text ++ 0 :: rest) =
      match parse text with
      | some r => .ok r
      | none => .error .null := by
  have hstarts {word : List UInt8} (hword : 0 ∉ word) (pos : List UInt8) :
      Checked.startsWithCase (pos ++ 0 :: rest) word = .ok (startsWithCase pos word) :=
    Checked.startsWithCase_append_nul hword pos rest
  have hget := hstarts (by decide : 0 ∉ getWord) text
  have hpost := hstarts (by decide : 0 ∉ postWord) text
  simp only [Checked.doHttpRequest, Checked.strlen_append_nul, hget, hpost, bind, Except.bind,
    parse, isCommit]
  by_cases hg : startsWithCase text getWord = true
  · simp only [hg, if_true]
    rfl
  by_cases hp : startsWithCase text postWord = true
  · have hlen : postWord.length ≤ text.length := length_le_of_startsWithCase hp
    have hskip := Checked.skipWhile_append_nul (by decide : isSpaceOrSlash 0 = false)
      (text.drop postWord.length) rest
    have hcommit := hstarts (by decide : 0 ∉ commitWord)
      ((text.drop postWord.length).dropWhile isSpaceOrSlash)
    have hblank := Checked.strstr_append_nul (by decide : 0 ∉ blankLine) htext rest
    simp only [hg, hp, drop_append_nul hlen, hskip, hcommit, hblank, if_true, Bool.true_and]
    by_cases hc :
        startsWithCase ((text.drop postWord.length).dropWhile isSpaceOrSlash) commitWord = true
    · simp only [hc, if_true]
      cases hfound : strstr text blankLine with
      | none => rfl
      | some pos =>
        have hpos : 0 ∉ pos := fun h => htext ((strstr_found hfound).2.subset h)
        exact checked_parseCommit hpos rest
    · simp only [hc]
      rfl
  · simp only [hg, hp]
    rfl

lemma parse_isSome_iff :
    (parse text).isSome = true ↔ (isCommit text = true → blankLine <:+: text) := by
  by_cases hc : isCommit text = true
  · rw [parse_commit hc, Option.isSome_map, isSome_strstr]
    exact ⟨fun h _ => h, fun h => h hc⟩
  · rw [parse_of_not_commit hc]
    exact ⟨fun _ h => absurd h hc, fun _ => rfl⟩

/-- For every text that is read, no search and no scan of `do_http_request` starts from
`NULL` or goes past the first NUL of the text, exactly if the text is not a commit
request without a blank line. -/
theorem doHttpRequest_inside_iff (bytes : List UInt8) :
    (∃ r, Checked.doHttpRequest (cstr bytes ++ [0]) = .ok r) ↔
      (isCommit (cstr bytes) = true → blankLine <:+: cstr bytes) := by
  rw [← parse_isSome_iff, checked_doHttpRequest (nul_notMem_cstr bytes)]
  cases parse (cstr bytes) with
  | none => simp
  | some r => simp

/-- `Post commit`: the header has not come yet. -/
def postCommit : List UInt8 := [80, 111, 115, 116, 32, 99, 111, 109, 109, 105, 116]

/-- The search for `name=` starts from `NULL`. -/
theorem searches_from_null :
    postCommit.length ≤ 4095 ∧
      Checked.doHttpRequest (cstr postCommit ++ [0]) = .error .null := by
  decide +kernel

end ShareBike.Http
