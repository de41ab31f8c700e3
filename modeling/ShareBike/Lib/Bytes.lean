import Mathlib.Algebra.Group.Nat.Defs
import Mathlib.Data.List.TakeWhile

/-!
# Byte buffers

A buffer is the list of its bytes. `overwrite` stores bytes at an offset, `slice`
reads them back, and `le` is their value as a little-endian number. `cstr` is the
C string that starts at the first byte of a buffer; a `char *` into a text is the
rest of the text from there to its NUL.
-/
namespace ShareBike.Lib

/-- Store `bytes` at offset `i`. -/
def overwrite (buf : List UInt8) (i : ℕ) (bytes : List UInt8) : List UInt8 :=
  buf.take i ++ bytes ++ buf.drop (i + bytes.length)

/-- The `n` bytes at offset `i`. -/
def slice (buf : List UInt8) (i n : ℕ) : List UInt8 := (buf.drop i).take n

/-- The value of bytes, least significant first. -/
def le : List UInt8 → ℕ
  | [] => 0
  | b :: bytes => b.toNat + 256 * le bytes

/-- The `n` low bytes of a number, least significant first. -/
def leBytes : ℕ → ℕ → List UInt8
  | 0, _ => []
  | n + 1, v => UInt8.ofNat v :: leBytes n (v / 256)

/-- The bytes before the first NUL. -/
def cstr (buf : List UInt8) : List UInt8 := buf.takeWhile (· ≠ 0)

def isDigit (b : UInt8) : Bool := 48 ≤ b ∧ b ≤ 57

/-- `tolower` in the C locale. -/
def tolower (b : UInt8) : UInt8 := if 65 ≤ b ∧ b ≤ 90 then b + 32 else b

/-- `!strncasecmp(buf, word, strlen(word))` for a lower case `word` without NUL. -/
def startsWithCase (buf word : List UInt8) : Bool := (buf.take word.length).map tolower = word

/-- `strstr`: the text from the first occurrence of `word`, or `NULL`. -/
def strstr (text word : List UInt8) : Option (List UInt8) :=
  if word.isPrefixOf text then some text
  else
    match text with
    | [] => none
    | _ :: text => strstr text word

variable {buf bytes text word found : List UInt8} {i j n : ℕ}

lemma length_overwrite (h : i ≤ buf.length) :
    (overwrite buf i bytes).length = max buf.length (i + bytes.length) := by
  simp only [overwrite, List.length_append, List.length_take, List.length_drop]
  omega

/-- What was stored is read back. -/
lemma slice_overwrite_self (h : i ≤ buf.length) :
    slice (overwrite buf i bytes) i bytes.length = bytes := by
  have hlen : (buf.take i).length = i := List.length_take_of_le h
  rw [slice, overwrite, List.append_assoc, List.drop_append_of_le_length (by omega)]
  rw [List.drop_of_length_le (by omega), List.nil_append, List.take_left]

/-- Bytes outside of what was stored keep their values. -/
lemma slice_overwrite_of_apart (h : i ≤ buf.length)
    (hap : j + n ≤ i ∨ i + bytes.length ≤ j) :
    slice (overwrite buf i bytes) j n = slice buf j n := by
  have hlen : (buf.take i).length = i := List.length_take_of_le h
  apply List.ext_getElem?
  intro k
  simp only [slice, List.getElem?_take, List.getElem?_drop]
  split_ifs with hk
  · rw [overwrite]
    rcases hap with hlow | hhigh
    · rw [List.append_assoc, List.getElem?_append_left (by omega),
        List.getElem?_take_of_lt (by omega)]
    · rw [List.getElem?_append_right (by rw [List.length_append]; omega), List.getElem?_drop,
        List.length_append, hlen]
      congr 1
      omega
  · rfl

/-- Cutting a buffer does not change what lies before the cut. -/
lemma slice_take {m : ℕ} (h : i + n ≤ m) :
    slice (buf.take m) i n = slice buf i n := by
  rw [slice, slice, List.drop_take, List.take_take, Nat.min_eq_left (by omega)]

@[simp] lemma length_leBytes (n v : ℕ) : (leBytes n v).length = n := by
  induction n generalizing v with
  | zero => rfl
  | succ n ih => simp [leBytes, ih]

/-- A number that fits survives being stored. -/
lemma le_leBytes {v : ℕ} (h : v < 256 ^ n) : le (leBytes n v) = v := by
  induction n generalizing v with
  | zero =>
    rw [Nat.pow_zero] at h
    simp only [leBytes, le]
    omega
  | succ n ih =>
    have hdiv : v / 256 < 256 ^ n := by
      rw [Nat.pow_succ] at h
      omega
    have hlow : (UInt8.ofNat v).toNat = v % 256 := by
      rw [UInt8.toNat_ofNat']
    simp only [leBytes, le, hlow, ih hdiv]
    omega

lemma cstr_cons (b : UInt8) (bytes : List UInt8) :
    cstr (b :: bytes) = if b = 0 then [] else b :: cstr bytes := by
  rw [cstr, List.takeWhile_cons]
  by_cases hb : b = 0
  · simp [hb]
  · simp [hb, cstr]

/-- A text without NUL is its own C string. -/
lemma cstr_eq_self_iff : cstr bytes = bytes ↔ 0 ∉ bytes := by
  rw [cstr, List.takeWhile_eq_self_iff]
  constructor
  · intro h hmem
    have hne := h 0 hmem
    simp at hne
  · intro h b hb
    exact decide_eq_true fun hz => h (hz ▸ hb)

lemma nul_notMem_cstr (bytes : List UInt8) : 0 ∉ cstr bytes := by
  intro h
  have hne := List.mem_takeWhile_imp h
  simp at hne

/-- A C string ends at a NUL, whatever follows it. -/
@[simp] lemma cstr_append_nul (bytes rest : List UInt8) :
    cstr (bytes ++ 0 :: rest) = cstr bytes := by
  induction bytes with
  | nil => rfl
  | cons b bytes ih => rw [List.cons_append, cstr_cons, cstr_cons, ih]

/-- A text that is not ended by a NUL goes on in what follows it. -/
lemma cstr_append (bytes rest : List UInt8) : cstr (bytes ++ rest) =
    cstr bytes ++ if (cstr bytes).length < bytes.length then [] else cstr rest := by
  induction bytes with
  | nil => rfl
  | cons b bytes ih =>
    by_cases hb : b = 0
    · simp [cstr_cons, hb]
    · simp [cstr_cons, hb, ih]

lemma cstr_take_append_nul (bytes rest : List UInt8) (n : ℕ) :
    cstr ((bytes ++ 0 :: rest).take n) = cstr (bytes.take n) := by
  by_cases hn : n ≤ bytes.length
  · rw [List.take_append_of_le_length hn]
  · obtain ⟨k, rfl⟩ : ∃ k, n = bytes.length + (k + 1) := ⟨n - bytes.length - 1, by omega⟩
    rw [List.take_length_add_append, List.take_succ_cons, cstr_append_nul,
      List.take_of_length_le (by omega)]

/-- The bytes from a place inside what was stored. -/
lemma drop_overwrite (h : i ≤ buf.length) (hij : i ≤ j) (hj : j ≤ i + bytes.length) :
    (overwrite buf i bytes).drop j = bytes.drop (j - i) ++ buf.drop (i + bytes.length) := by
  obtain ⟨k, rfl⟩ : ∃ k, j = i + k := ⟨j - i, by omega⟩
  have hlen : (buf.take i).length = i := List.length_take_of_le h
  have hdrop : (buf.take i ++ (bytes ++ buf.drop (i + bytes.length))).drop i =
      bytes ++ buf.drop (i + bytes.length) := List.drop_left' hlen
  rw [overwrite, List.append_assoc, ← List.drop_drop, hdrop,
    List.drop_append_of_le_length (by omega), Nat.add_sub_cancel_left]

/-- Overwriting a buffer from its start. -/
lemma overwrite_zero (buf bytes : List UInt8) :
    overwrite buf 0 bytes = bytes ++ buf.drop bytes.length := by
  simp [overwrite]

/-- Overwriting what follows a given start. -/
lemma overwrite_append (start buf bytes : List UInt8) :
    overwrite (start ++ buf) start.length bytes =
      start ++ (bytes ++ buf.drop bytes.length) := by
  simp [overwrite, List.drop_append]

/-- A comparison with a word does not look past a NUL. -/
lemma startsWithCase_append_nul (hword : 0 ∉ word) (bytes rest : List UInt8) :
    startsWithCase (bytes ++ 0 :: rest) word = startsWithCase bytes word := by
  by_cases hlen : word.length ≤ bytes.length
  · rw [startsWithCase, startsWithCase, List.take_append_of_le_length hlen]
  · have hlt : bytes.length < word.length := Nat.not_le.mp hlen
    have hlong : startsWithCase (bytes ++ 0 :: rest) word = false := by
      refine decide_eq_false fun he => hword ?_
      rw [← he, List.mem_map]
      refine ⟨0, ?_, rfl⟩
      have hlt' : bytes.length < min word.length (bytes ++ 0 :: rest).length := by
        rw [List.length_append, List.length_cons]
        omega
      exact List.mem_take_iff_getElem.mpr ⟨bytes.length, hlt', by simp⟩
    have hshort : startsWithCase bytes word = false := by
      refine decide_eq_false fun he => hlen ?_
      rw [← he, List.length_map, List.length_take]
      exact Nat.min_le_right _ _
    rw [hlong, hshort]

lemma length_le_of_startsWithCase (h : startsWithCase buf word = true) :
    word.length ≤ buf.length := by
  have he := congrArg List.length (of_decide_eq_true h)
  rw [List.length_map, List.length_take] at he
  omega

lemma startsWithCase_of_map {pre : List UInt8} (h : pre.map tolower = word)
    (rest : List UInt8) : startsWithCase (pre ++ rest) word = true := by
  have hlen : word.length = pre.length := by rw [← h, List.length_map]
  rw [startsWithCase, hlen, List.take_left, h]
  exact decide_eq_true rfl

lemma strstr_of_starts (h : word <+: text) : strstr text word = some text := by
  rw [strstr.eq_def, if_pos (List.isPrefixOf_iff_prefix.mpr h)]

lemma strstr_nil_of_not_starts (h : ¬ word <+: []) : strstr [] word = none := by
  rw [strstr.eq_def, if_neg (mt List.isPrefixOf_iff_prefix.mp h)]

lemma strstr_cons_of_not_starts {b : UInt8} (h : ¬ word <+: b :: text) :
    strstr (b :: text) word = strstr text word := by
  rw [strstr, if_neg (mt List.isPrefixOf_iff_prefix.mp h)]

/-- A search finds a word exactly if the text has it somewhere. -/
lemma isSome_strstr : (strstr text word).isSome = true ↔ word <:+: text := by
  induction text with
  | nil =>
    by_cases h : word <+: []
    · simp [strstr_of_starts h, h.isInfix]
    · have hinfix : ¬ word <:+: [] := fun hi => h (List.infix_nil.mp hi ▸ List.nil_prefix)
      rw [strstr_nil_of_not_starts h]
      simpa using hinfix
  | cons b text ih =>
    by_cases h : word <+: b :: text
    · simp [strstr_of_starts h, h.isInfix]
    · rw [strstr_cons_of_not_starts h, ih, List.infix_cons_iff]
      exact (or_iff_right h).symm

/-- What is found starts with the word and is a rest of the text. -/
lemma strstr_found (h : strstr text word = some found) : word <+: found ∧ found <:+ text := by
  induction text with
  | nil =>
    by_cases hpre : word <+: []
    · rw [strstr_of_starts hpre] at h
      cases h
      exact ⟨hpre, List.suffix_rfl⟩
    · rw [strstr_nil_of_not_starts hpre] at h
      cases h
  | cons b text ih =>
    by_cases hpre : word <+: b :: text
    · rw [strstr_of_starts hpre] at h
      cases h
      exact ⟨hpre, List.suffix_rfl⟩
    · rw [strstr_cons_of_not_starts hpre] at h
      exact ⟨(ih h).1, (ih h).2.trans (List.suffix_cons b text)⟩

/-- A search passes over bytes that the word does not start with. -/
lemma strstr_append_of_head {pre : List UInt8} {c : UInt8} (hc : word.head? = some c)
    (hpre : c ∉ pre) : strstr (pre ++ text) word = strstr text word := by
  induction pre with
  | nil => rfl
  | cons b pre ih =>
    have hhead : ¬ word <+: b :: (pre ++ text) := by
      intro h
      obtain ⟨w, rfl⟩ := List.head?_eq_some_iff.mp hc
      obtain ⟨rfl, -⟩ := List.cons_prefix_cons.mp h
      exact hpre List.mem_cons_self
    rw [List.cons_append, strstr_cons_of_not_starts hhead]
    exact ih fun h => hpre (List.mem_cons_of_mem b h)

/-- A search passes over a text without the word, and a byte that is not in the word. -/
lemma strstr_append_cons {pre : List UInt8} {c : UInt8} (hpre : ¬ word <:+: pre)
    (hc : c ∉ word) : strstr (pre ++ c :: text) word = strstr text word := by
  induction pre with
  | nil =>
    have hhead : ¬ word <+: c :: text := by
      intro h
      cases word with
      | nil => exact hpre List.infix_rfl
      | cons d word =>
        obtain ⟨rfl, -⟩ := List.cons_prefix_cons.mp h
        exact hc List.mem_cons_self
    exact strstr_cons_of_not_starts hhead
  | cons b pre ih =>
    have hhead : ¬ word <+: b :: (pre ++ c :: text) := by
      intro h
      have hstop : b :: pre ++ [c] <+: b :: (pre ++ c :: text) := ⟨text, by simp⟩
      rcases List.prefix_or_prefix_of_prefix h hstop with hword | hword
      · rcases List.prefix_concat_iff.mp hword with rfl | hword
        · exact hc (by simp)
        · exact hpre hword.isInfix
      · exact hc (hword.subset (by simp))
    rw [List.cons_append, strstr_cons_of_not_starts hhead]
    exact ih fun h => hpre (h.trans (List.infix_cons List.infix_rfl))

/-- Where a word follows a text without it, the search ends there, or before in bytes
that the word starts with. -/
lemma strstr_append_word {pre : List UInt8} (hpre : ¬ word <:+: pre) (rest : List UInt8) :
    ∃ tail, (∀ b ∈ tail, b ∈ word) ∧
      strstr (pre ++ (word ++ rest)) word = some (tail ++ (word ++ rest)) := by
  induction pre with
  | nil =>
    refine ⟨[], by simp, ?_⟩
    exact strstr_of_starts (List.prefix_append word rest)
  | cons b pre ih =>
    by_cases h : word <+: b :: (pre ++ (word ++ rest))
    · refine ⟨b :: pre, ?_, strstr_of_starts h⟩
      have hstart : b :: pre <+: b :: (pre ++ (word ++ rest)) := ⟨word ++ rest, rfl⟩
      rcases List.prefix_or_prefix_of_prefix h hstart with hword | hword
      · exact absurd hword.isInfix hpre
      · exact fun x hx => hword.subset hx
    · rw [List.cons_append, strstr_cons_of_not_starts h]
      exact ih fun hi => hpre (hi.trans (List.infix_cons List.infix_rfl))

end ShareBike.Lib
