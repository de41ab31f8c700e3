import ShareBike.Lib.Bytes

/-!
# C strings with checked accesses

A pointer into an array is the rest of the array from the byte that it points to, so
an array that is cut after a byte has no access beyond this byte. A pointer that may
be `NULL` is an `Option`. The functions of `string.h` stop where they have to stop:
at a NUL, at the first difference, or at the end of the array, which is a bad access.
-/
namespace ShareBike.Lib

inductive BadAccess
  | null
  | outOfBounds
  deriving DecidableEq, Repr

namespace Checked

/-- The memory that a pointer points to. -/
def deref : Option (List UInt8) → Except BadAccess (List UInt8)
  | none => .error .null
  | some mem => .ok mem

/-- The `n` bytes at the start of `mem`. -/
def load (n : ℕ) (mem : List UInt8) : Except BadAccess (List UInt8) :=
  if n ≤ mem.length then .ok (mem.take n) else .error .outOfBounds

/-- Store `bytes` at offset `i` of an array. -/
def store (mem : List UInt8) (i : ℕ) (bytes : List UInt8) : Except BadAccess (List UInt8) :=
  if i + bytes.length ≤ mem.length then .ok (overwrite mem i bytes) else .error .outOfBounds

def strlen : List UInt8 → Except BadAccess ℕ
  | [] => .error .outOfBounds
  | b :: mem => if b = 0 then .ok 0 else (strlen mem).map (· + 1)

/-- The C string at the start of `mem`, without its NUL. -/
def string (mem : List UInt8) : Except BadAccess (List UInt8) := do
  let n ← strlen mem
  load n mem

/-- Does `mem` start with `word`, after `fold` on each byte? -/
def startsWith (fold : UInt8 → UInt8) : List UInt8 → List UInt8 → Except BadAccess Bool
  | [], _ => .ok true
  | _ :: _, [] => .error .outOfBounds
  | c :: word, b :: mem => if fold b = c then startsWith fold word mem else .ok false

/-- `!strncasecmp(mem, word, strlen(word))` for a lower case `word`. -/
def startsWithCase (mem word : List UInt8) : Except BadAccess Bool := startsWith tolower word mem

/-- `strstr`: the memory from the first occurrence of `word`, or `NULL`. -/
def strstr (word : List UInt8) : List UInt8 → Except BadAccess (Option (List UInt8))
  | [] => .error .outOfBounds
  | b :: mem => do
    if ← startsWith id word (b :: mem) then return some (b :: mem)
    else if b = 0 then return none
    else strstr word mem

/-- `while (p(*pos)) ++pos` -/
def skipWhile (p : UInt8 → Bool) : List UInt8 → Except BadAccess (List UInt8)
  | [] => .error .outOfBounds
  | b :: mem => if p b then skipWhile p mem else .ok (b :: mem)

/-- `end = pos; while (p(*end)) end++;` and the `end - pos` bytes that are copied. -/
def run (p : UInt8 → Bool) (pos : List UInt8) : Except BadAccess (List UInt8) := do
  let stop ← skipWhile p pos
  load (pos.length - stop.length) pos

def strcpy (dst src : List UInt8) : Except BadAccess (List UInt8) := do
  let s ← string src
  store dst 0 (s ++ [0])

def strcat (dst src : List UInt8) : Except BadAccess (List UInt8) := do
  let n ← strlen dst
  let s ← string src
  store dst n (s ++ [0])

/-- `snprintf(dst, size, ..)`, where `out` is what the format and its arguments give:
as much of it as there is room for, and the length of all of it. -/
def snprintf (dst : List UInt8) (size : ℕ) (out : List UInt8) :
    Except BadAccess (List UInt8 × ℕ) := do
  let dst ← store dst 0 (out.take (size - 1) ++ [0])
  return (dst, out.length)

/-- An array of `cap` bytes that starts with the C string `s`. -/
structure Holds (cap : ℕ) (s buf : List UInt8) : Prop where
  nul : 0 ∉ s
  length : buf.length = cap
  text : ∃ rest, buf = s ++ 0 :: rest

variable {mem bytes text word rest : List UInt8} {p : UInt8 → Bool} {n : ℕ}
  {s t src dst out : List UInt8} {cap size : ℕ}

@[simp] lemma load_of_le (h : n ≤ mem.length) : load n mem = .ok (mem.take n) := if_pos h

/-- Storing after a given start, where there is room. -/
lemma store_append (h : bytes.length ≤ mem.length) (start : List UInt8) :
    store (start ++ mem) start.length bytes =
      .ok ((start ++ bytes) ++ mem.drop bytes.length) := by
  have hroom : start.length + bytes.length ≤ (start ++ mem).length := by
    rw [List.length_append]
    omega
  rw [store, if_pos hroom, overwrite_append, List.append_assoc]

lemma store_zero (h : bytes.length ≤ mem.length) :
    store mem 0 bytes = .ok (bytes ++ mem.drop bytes.length) :=
  store_append h []

/-- The C string is found if there is a NUL. -/
@[simp] lemma strlen_append_nul (text rest : List UInt8) :
    strlen (text ++ 0 :: rest) = .ok (cstr text).length := by
  induction text with
  | nil => rfl
  | cons b text ih =>
    by_cases hb : b = 0
    · simp [strlen, cstr, hb]
    · rw [List.cons_append, strlen, if_neg hb, ih]
      simp [cstr, hb, Except.map]

@[simp] lemma string_append_nul (text rest : List UInt8) :
    string (text ++ 0 :: rest) = .ok (cstr text) := by
  have hpre : cstr text <+: text ++ 0 :: rest :=
    (List.takeWhile_prefix _).trans (List.prefix_append _ _)
  simp only [string, strlen_append_nul, bind, Except.bind]
  rw [load_of_le hpre.length_le, ← List.prefix_iff_eq_take.mp hpre]

/-- A comparison ends at the NUL of the text, if not before. -/
lemma startsWith_append_nul {fold : UInt8 → UInt8} (hword : fold 0 ∉ word)
    (text rest : List UInt8) : startsWith fold word (text ++ 0 :: rest) =
      .ok ((text.take word.length).map fold = word) := by
  induction word generalizing text with
  | nil => simp [startsWith]
  | cons c word ih =>
    have htail : fold 0 ∉ word := fun h => hword (List.mem_cons_of_mem c h)
    have hhead : fold 0 ≠ c := fun h => hword (h ▸ List.mem_cons_self)
    cases text with
    | nil => simp [startsWith, hhead]
    | cons b text =>
      rw [List.cons_append, startsWith, ih htail]
      by_cases hb : fold b = c
      · simp [hb]
      · simp [hb]

lemma startsWithCase_append_nul (hword : 0 ∉ word) (text rest : List UInt8) :
    startsWithCase (text ++ 0 :: rest) word = .ok (Lib.startsWithCase text word) :=
  startsWith_append_nul hword text rest

/-- The comparison that `strstr` makes at each byte. -/
lemma startsWith_id_append_nul (hword : 0 ∉ word) (text rest : List UInt8) :
    startsWith id word (text ++ 0 :: rest) = .ok (word.isPrefixOf text) := by
  rw [startsWith_append_nul hword, List.map_id, Except.ok.injEq, Bool.eq_iff_iff,
    decide_eq_true_eq, List.isPrefixOf_iff_prefix, List.prefix_iff_eq_take]
  exact eq_comm

/-- A search does not go past the NUL of the text. -/
lemma strstr_append_nul (hword : 0 ∉ word) (htext : 0 ∉ text) (rest : List UInt8) :
    strstr word (text ++ 0 :: rest) =
      .ok ((Lib.strstr text word).map (· ++ 0 :: rest)) := by
  induction text with
  | nil =>
    have hpre := startsWith_id_append_nul hword [] rest
    rw [List.nil_append] at hpre ⊢
    rw [strstr, hpre, Lib.strstr]
    cases word.isPrefixOf [] <;> rfl
  | cons b text ih =>
    have hb : b ≠ 0 := fun h => htext (h ▸ List.mem_cons_self)
    have hpre := startsWith_id_append_nul hword (b :: text) rest
    have hrec := ih fun h => htext (List.mem_cons_of_mem b h)
    rw [List.cons_append] at hpre ⊢
    rw [strstr, hpre, hrec, if_neg hb, Lib.strstr]
    cases word.isPrefixOf (b :: text) <;> rfl

/-- A scan ends at the NUL of the text, if not before. -/
lemma skipWhile_append_nul (hp : p 0 = false) (text rest : List UInt8) :
    skipWhile p (text ++ 0 :: rest) = .ok (text.dropWhile p ++ 0 :: rest) := by
  induction text with
  | nil => simp [skipWhile, hp]
  | cons b text ih =>
    rw [List.cons_append, skipWhile, List.dropWhile_cons]
    split_ifs
    · exact ih
    · rfl

lemma run_append_nul (hp : p 0 = false) (text rest : List UInt8) :
    run p (text ++ 0 :: rest) = .ok (text.takeWhile p) := by
  have hlen : (text.takeWhile p).length + (text.dropWhile p).length = text.length := by
    rw [← List.length_append, List.takeWhile_append_dropWhile]
  have hstop : (text ++ 0 :: rest).length - (text.dropWhile p ++ 0 :: rest).length =
      (text.takeWhile p).length := by
    simp only [List.length_append]
    omega
  have hpre : text.takeWhile p <+: text ++ 0 :: rest :=
    (List.takeWhile_prefix p).trans (List.prefix_append _ _)
  simp only [run, skipWhile_append_nul hp, bind, Except.bind, hstop]
  rw [load_of_le hpre.length_le, ← List.prefix_iff_eq_take.mp hpre]

lemma Holds.strlen (h : Holds cap s mem) : Checked.strlen mem = .ok s.length := by
  obtain ⟨rest, rfl⟩ := h.text
  rw [strlen_append_nul, cstr_eq_self_iff.mpr h.nul]

lemma Holds.string (h : Holds cap s mem) : Checked.string mem = .ok s := by
  obtain ⟨rest, rfl⟩ := h.text
  rw [string_append_nul, cstr_eq_self_iff.mpr h.nul]

lemma Holds.load (h : Holds cap s mem) : Checked.load s.length mem = .ok s := by
  obtain ⟨rest, rfl⟩ := h.text
  rw [load_of_le (by simp), List.take_left]

/-- A C string that ends before the end of the array. -/
lemma string_of_lt (h : (cstr mem).length < mem.length) : string mem = .ok (cstr mem) := by
  have hmem : 0 ∈ mem := by
    by_contra hno
    rw [cstr_eq_self_iff.mpr hno] at h
    omega
  obtain ⟨text, rest, rfl⟩ := List.append_of_mem hmem
  rw [string_append_nul, cstr_append_nul]

/-- A string and its NUL, stored behind a start of the array. -/
lemma store_holds (hs : 0 ∉ t ++ s) (hroom : s.length < mem.length) :
    ∃ buf, store (t ++ mem) t.length (s ++ [0]) = .ok buf ∧
      Holds (t.length + mem.length) (t ++ s) buf := by
  have hlen : (s ++ [0]).length ≤ mem.length := by
    rw [List.length_append, List.length_singleton]
    omega
  refine ⟨_, store_append hlen t, hs, ?_, mem.drop (s ++ [0]).length, by simp⟩
  rw [List.length_append, List.length_append, List.length_drop]
  omega

lemma strcpy_holds (hsrc : Holds cap s src) (hroom : s.length < dst.length) :
    ∃ buf, strcpy dst src = .ok buf ∧ Holds dst.length s buf := by
  obtain ⟨buf, hstore, hbuf⟩ := store_holds (t := []) hsrc.nul hroom
  refine ⟨buf, ?_, by simpa using hbuf⟩
  simp only [strcpy, hsrc.string, bind, Except.bind]
  exact hstore

lemma strcat_holds (hdst : Holds cap t dst) (hsrc : Holds size s src)
    (hroom : t.length + s.length < cap) :
    ∃ buf, strcat dst src = .ok buf ∧ Holds cap (t ++ s) buf := by
  have hlen := hdst.strlen
  obtain ⟨rest, rfl⟩ := hdst.text
  have hcap : t.length + (0 :: rest).length = cap := by rw [← hdst.length, List.length_append]
  have hnul : 0 ∉ t ++ s := by simp [hdst.nul, hsrc.nul]
  obtain ⟨buf, hstore, hbuf⟩ := store_holds hnul (by omega : s.length < (0 :: rest).length)
  rw [hcap] at hbuf
  refine ⟨buf, ?_, hbuf⟩
  simp only [strcat, hlen, hsrc.string, bind, Except.bind]
  exact hstore

/-- Nothing is cut off what has room. -/
lemma snprintf_holds (hout : 0 ∉ out) (hroom : out.length < size) (hsize : size ≤ dst.length) :
    ∃ buf, snprintf dst size out = .ok (buf, out.length) ∧ Holds dst.length out buf := by
  have htake : out.take (size - 1) = out := List.take_of_length_le (by omega)
  obtain ⟨buf, hstore, hbuf⟩ :=
    store_holds (t := []) hout (by omega : out.length < dst.length)
  refine ⟨buf, ?_, by simpa using hbuf⟩
  simp only [snprintf, htake, bind, Except.bind]
  rw [show store dst 0 (out ++ [0]) = .ok buf from hstore]
  rfl

end Checked

end ShareBike.Lib
