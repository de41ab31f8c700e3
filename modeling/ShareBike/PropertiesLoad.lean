import ShareBike.Properties

/-!
# Reading and writing property files

The buffer through which a file is read does not show: what is read is what the lines
of the file define, one after the other. What is written is read back.
-/
namespace ShareBike.PropertyFile
open ShareBike.Lib

variable {line rest file fullLine : List UInt8} {partiallyRead : Bool} {props : Properties}
variable (getenv : List UInt8 → Option (List UInt8))

/-- A line as the buffer passes it on: each piece of it ends at its first NUL. -/
def glue (line : List UInt8) : List UInt8 :=
  cstr (line.take 255) ++ if 255 < line.length then glue (line.drop 255) else []
termination_by line.length
decreasing_by
  rw [List.length_drop]
  omega

lemma glue_short (h : line.length ≤ 255) : glue line = cstr line := by
  rw [glue, if_neg (by omega), List.append_nil, List.take_of_length_le h]

lemma glue_long (h : 255 < line.length) :
    glue line = cstr (line.take 255) ++ glue (line.drop 255) := by
  rw [glue, if_pos h]

/-- Without NULs, no matter how long the line is. -/
lemma glue_eq_self (h : 0 ∉ line) : glue line = line := by
  induction hlen : line.length using Nat.strong_induction_on generalizing line with
  | _ n ih =>
    by_cases hshort : line.length ≤ 255
    · rw [glue_short hshort, cstr_eq_self_iff.mpr h]
    · have htake : 0 ∉ line.take 255 := fun hm => h (List.mem_of_mem_take hm)
      have hdrop : 0 ∉ line.drop 255 := fun hm => h (List.mem_of_mem_drop hm)
      have hrest := ih (line.drop 255).length (by rw [List.length_drop]; omega) hdrop rfl
      rw [glue_long (by omega), hrest, cstr_eq_self_iff.mpr htake, List.take_append_drop]

section Getline

lemma takeWhile_line (h : 10 ∉ line) : line.takeWhile (fun b => decide (b ≠ 10)) = line :=
  List.takeWhile_eq_self_iff.mpr fun _ hb => decide_eq_true fun he => h (he ▸ hb)

/-- A line that fits in the buffer. -/
lemma getline_line (h : 10 ∉ line) (hlen : line.length ≤ 255) (rest : List UInt8) :
    getline 256 ⟨line ++ 10 :: rest, false, false⟩ = (line, ⟨rest, false, false⟩) := by
  have hread : ((line ++ 10 :: rest).take (256 - 1)).takeWhile (fun b => decide (b ≠ 10)) =
      line := by
    rw [List.take_append, List.takeWhile_append_of_pos]
    · by_cases hfull : line.length = 255
      · simp [hfull, List.take_of_length_le]
      · obtain ⟨n, hn⟩ : ∃ n, 256 - 1 - line.length = n + 1 := ⟨254 - line.length, by omega⟩
        rw [hn, List.take_succ_cons, List.take_of_length_le (by omega)]
        simp
    · intro b hb
      exact decide_eq_true fun he => h (he ▸ List.mem_of_mem_take hb)
  simp only [getline, Bool.false_eq_true, or_self, if_false, hread]
  rw [List.drop_left]
  rfl

/-- The last line, which no newline ends. -/
lemma getline_last (h : 10 ∉ line) (hlen : line.length ≤ 255) :
    getline 256 ⟨line, false, false⟩ = (line, ⟨[], true, line = []⟩) := by
  have hread : (line.take (256 - 1)).takeWhile (fun b => decide (b ≠ 10)) = line := by
    rw [List.take_of_length_le (by omega), takeWhile_line h]
  simp only [getline, Bool.false_eq_true, or_self, if_false, hread]
  rw [List.drop_length]

/-- A line that does not fit. -/
lemma getline_full (h : 10 ∉ line) (hlen : 255 < line.length) (rest : List UInt8) :
    getline 256 ⟨line ++ rest, false, false⟩ =
      (line.take 255, ⟨line.drop 255 ++ rest, false, true⟩) := by
  have htake : (line ++ rest).take (256 - 1) = line.take 255 :=
    List.take_append_of_le_length (by omega)
  have hread : (line.take 255).takeWhile (fun b => decide (b ≠ 10)) = line.take 255 :=
    takeWhile_line fun hm => h (List.mem_of_mem_take hm)
  have hlen' : (line.take 255).length = 255 := List.length_take_of_le (by omega)
  have hdrop : (line ++ rest).drop 255 = line.drop 255 ++ rest :=
    List.drop_append_of_le_length (by omega)
  simp only [getline, Bool.false_eq_true, or_self, if_false, htake, hread, hlen', hdrop]
  obtain ⟨c, cs, hcs⟩ : ∃ c cs, line.drop 255 = c :: cs :=
    List.exists_cons_of_ne_nil fun hnil => by
      have hzero := congrArg List.length hnil
      rw [List.length_drop, List.length_nil] at hzero
      omega
  have hc : c ≠ 10 := by
    rintro rfl
    exact h (List.mem_of_mem_drop (hcs ▸ List.mem_cons_self))
  rw [hcs, List.cons_append]
  exact if_neg hc

end Getline

lemma define_nil (props : Properties) : define getenv props [] = props := rfl

lemma loop_failed {s : Stream} (h : s.fail = true) (fullLine : List UInt8)
    (partiallyRead : Bool) (props : Properties) :
    loop getenv s fullLine partiallyRead props = props := by
  rw [loop, dif_neg (by simp [h])]

/-- After the last line, one more call of `getline` fails. -/
lemma loop_eof (fullLine : List UInt8) (props : Properties) :
    loop getenv ⟨[], true, false⟩ fullLine false props = props := by
  have hread : getline 256 ⟨[], true, false⟩ = ([], ⟨[], true, true⟩) := rfl
  rw [loop, dif_pos rfl]
  simp only [hread, and_false, Bool.true_eq_false, dite_false]
  rw [loop_failed getenv rfl]
  rfl

/-- What `fullLine` is after a call of `getline`. -/
def joinedLine (fullLine : List UInt8) (partiallyRead : Bool) (line : List UInt8) : List UInt8 :=
  if partiallyRead then fullLine ++ line else line

lemma loop_step {s s' : Stream} (h : s.fail = false) (hread : getline 256 s = (line, s'))
    (fullLine : List UInt8) (partiallyRead : Bool) (props : Properties) :
    loop getenv s fullLine partiallyRead props =
      if s'.fail = true ∧ s'.eof = false then
        loop getenv { s' with fail := false } (joinedLine fullLine partiallyRead (cstr line)) true
          props
      else
        loop getenv s' (joinedLine fullLine partiallyRead (cstr line)) s'.fail
          (define getenv props (joinedLine fullLine partiallyRead (cstr line))) := by
  have hjoined : (if partiallyRead = true then fullLine ++ cstr line else cstr line) =
      joinedLine fullLine partiallyRead (cstr line) := rfl
  rw [loop, dif_pos h]
  simp only [hread, hjoined]
  split_ifs <;> rfl

lemma joinedLine_glue (fullLine : List UInt8) (partiallyRead : Bool) (line : List UInt8)
    (h : 255 < line.length) :
    joinedLine (joinedLine fullLine partiallyRead (cstr (line.take 255))) true
      (glue (line.drop 255)) = joinedLine fullLine partiallyRead (glue line) := by
  rw [glue_long h]
  cases partiallyRead <;> simp [joinedLine]

/-- The loop defines what the lines say; the first may have begun before. -/
lemma loop_eq (h : 10 ∉ line) (tail : Option (List UInt8)) (fullLine : List UInt8)
    (partiallyRead : Bool) (props : Properties) :
    loop getenv ⟨line ++ (tail.map (10 :: ·)).getD [], false, false⟩ fullLine partiallyRead props =
      match tail with
      | none => define getenv props (joinedLine fullLine partiallyRead (glue line))
      | some rest => loop getenv ⟨rest, false, false⟩
          (joinedLine fullLine partiallyRead (glue line)) false
          (define getenv props (joinedLine fullLine partiallyRead (glue line))) := by
  induction hlen : line.length using Nat.strong_induction_on
    generalizing line fullLine partiallyRead with
  | _ n ih =>
    by_cases hshort : line.length ≤ 255
    · rw [glue_short hshort]
      cases tail with
      | some rest =>
        rw [Option.map_some, Option.getD_some, loop_step getenv rfl (getline_line h hshort rest)]
        rfl
      | none =>
        have hread : getline 256 ⟨line ++ [], false, false⟩ = (line, ⟨[], true, line = []⟩) := by
          rw [List.append_nil]
          exact getline_last h hshort
        rw [Option.map_none, Option.getD_none, loop_step getenv rfl hread]
        simp only [Bool.true_eq_false, and_false, if_false]
        by_cases hnil : line = []
        · rw [loop_failed getenv (by simp [hnil])]
        · simp only [hnil, decide_false]
          exact loop_eof ..
    · have hlong : 255 < line.length := by omega
      have hdrop : 10 ∉ line.drop 255 := fun hm => h (List.mem_of_mem_drop hm)
      have hrest := ih (line.drop 255).length (by rw [List.length_drop]; omega) hdrop
        (joinedLine fullLine partiallyRead (cstr (line.take 255))) true rfl
      rw [loop_step getenv rfl (getline_full h hlong _)]
      simp only [true_and, if_true]
      rw [hrest, joinedLine_glue fullLine partiallyRead line hlong]

/-- `load` defines what the lines of the file say, in their order. -/
theorem load_eq (file : List UInt8) :
    load getenv file = ((split 10 file).map glue).foldl (define getenv) ∅ := by
  have hall : ∀ (file fullLine : List UInt8) (props : Properties),
      loop getenv ⟨file, false, false⟩ fullLine false props =
        ((split 10 file).map glue).foldl (define getenv) props := by
    intro file
    induction hlen : file.length using Nat.strong_induction_on generalizing file with
    | _ n ih =>
      intro fullLine props
      cases hfind : find 10 file with
      | none =>
        have hline := find_eq_none_iff.mp hfind
        have hloop := loop_eq getenv hline none fullLine false props
        rw [Option.map_none, Option.getD_none, List.append_nil] at hloop
        rw [hloop, split_of_notMem hline]
        rfl
      | some i =>
        obtain ⟨hfile, hline⟩ := find_split hfind
        have hloop := loop_eq getenv hline (some (file.drop (i + 1))) fullLine false props
        rw [Option.map_some, Option.getD_some, ← hfile] at hloop
        have hlt := find_lt hfind
        have hrest := ih (file.drop (i + 1)).length (by rw [List.length_drop]; omega) _ rfl
          (glue (file.take i)) (define getenv props (glue (file.take i)))
        have hsplit : split 10 file = file.take i :: split 10 (file.drop (i + 1)) := by
          rw [← split_append hline, ← hfile]
        rw [hloop, hsplit]
        exact hrest
  exact hall file [] ∅

lemma map_glue {file : List UInt8} (h : 0 ∉ file) : (split 10 file).map glue = split 10 file := by
  have hglue : ∀ line ∈ split 10 file, glue line = id line := fun line hline =>
    glue_eq_self fun hb => h (mem_of_mem_split hline hb)
  rw [List.map_congr_left hglue, List.map_id]

/-- The buffer of 256 bytes does not show: a file without NULs is read line by line,
however long its lines are, and whether or not the last one is ended. -/
theorem load_lines (file : List UInt8) (h : 0 ∉ file) :
    load getenv file = (split 10 file).foldl (define getenv) ∅ := by
  rw [load_eq, map_glue h]

/-- A value of 300 bytes, and a second definition that comes too late. -/
def longFile : List UInt8 :=
  utf8 "log4cpp.k = " ++ List.replicate 300 120 ++ utf8 " # long\nk=y\n"

theorem load_lines_long :
    load (fun _ => none) longFile = (split 10 longFile).foldl (define fun _ => none) ∅ ∧
    (load (fun _ => none) longFile)[utf8 "k"]? = some (List.replicate 300 120) := by
  have h : load (fun _ => none) longFile = (split 10 longFile).foldl (define fun _ => none) ∅ :=
    load_lines (fun _ => none) longFile (by decide +kernel)
  refine ⟨h, ?_⟩
  rw [h]
  decide +kernel

section Save

variable {getenv} {key value k v : List UInt8} {m : Properties}
  {list : List (List UInt8 × List UInt8)}

/-- A pair whose line in a file means the pair itself. -/
structure Clean (key value : List UInt8) : Prop where
  newline : 10 ∉ key ∧ 10 ∉ value
  nul : 0 ∉ key ∧ 0 ∉ value
  comment : 35 ∉ key ∧ 35 ∉ value
  equals : 61 ∉ key
  trimmed : trim key = key ∧ trim value = value
  plain : stripPrefix key = key
  literal : findWord [36, 123] value = none

/-- The line of a pair. -/
def pairLine (p : List UInt8 × List UInt8) : List UInt8 := p.1 ++ 61 :: p.2

lemma define_pairLine (h : Clean key value) (props : Properties) :
    define getenv props (pairLine (key, value)) = props.insertIfNew key value := by
  have hcomment : find 35 (key ++ 61 :: value) = none := by
    rw [find_eq_none_iff]
    simp [h.comment.1, h.comment.2]
  have hvalue : substituteVariables getenv props value = value := by
    rw [substituteVariables, substitute, h.literal]
  rw [define, command, pairLine, hcomment]
  dsimp only
  rw [find_append h.equals]
  dsimp only
  have hdrop : (key ++ 61 :: value).drop (key.length + 1) = value := by simp
  rw [List.take_left, hdrop, h.trimmed.1, h.trimmed.2, hvalue, h.plain]

/-- The lines of a file of pairs, and the empty line after the last newline. -/
lemma split_save (h : ∀ p ∈ list, 10 ∉ p.1 ∧ 10 ∉ p.2) :
    split 10 (list.flatMap fun p => p.1 ++ [61] ++ p.2 ++ [10]) =
      list.map pairLine ++ [[]] := by
  induction list with
  | nil => exact split_of_notMem (by simp)
  | cons p list ih =>
    have hp := h p List.mem_cons_self
    have hline : 10 ∉ p.1 ++ 61 :: p.2 := by simp [hp.1, hp.2]
    have hrest := ih fun q hq => h q (List.mem_cons_of_mem p hq)
    have hfile : (p :: list).flatMap (fun p => p.1 ++ [61] ++ p.2 ++ [10]) =
        (p.1 ++ 61 :: p.2) ++ 10 :: list.flatMap fun p => p.1 ++ [61] ++ p.2 ++ [10] := by
      simp
    rw [hfile, split_append hline, hrest]
    rfl

/-- Inserting pairs with distinct keys, none of which is in the map yet. -/
lemma getElem?_foldl_insertIfNew
    (hdistinct : list.Pairwise fun p q => ¬ compare p.1 q.1 = .eq) (hnew : ∀ p ∈ list, p.1 ∉ m) :
    (list.foldl (fun m p => m.insertIfNew p.1 p.2) m)[k]? = some v ↔
      (k, v) ∈ list ∨ m[k]? = some v := by
  induction list generalizing m with
  | nil => simp
  | cons p list ih =>
    obtain ⟨hp, hlist⟩ := List.pairwise_cons.mp hdistinct
    have hpm : p.1 ∉ m := hnew p List.mem_cons_self
    have hnew' : ∀ q ∈ list, q.1 ∉ m.insertIfNew p.1 p.2 := by
      intro q hq hmem
      rw [Std.ExtTreeMap.mem_insertIfNew] at hmem
      exact hmem.elim (hp q hq) (hnew q (List.mem_cons_of_mem p hq))
    rw [List.foldl_cons, ih hlist hnew', Std.ExtTreeMap.getElem?_insertIfNew, List.mem_cons,
      or_assoc, or_left_comm]
    by_cases hk : p.1 = k
    · subst hk
      have hpair : (p.1, v) = p ↔ p.2 = v := by
        rw [eq_comm, Prod.ext_iff]
        simp
      simp [hpm, hpair, or_comm]
    · have hpair : (k, v) ≠ p := fun he => hk (congrArg Prod.fst he).symm
      simp [hk, hpair]

/-- What `save` writes is what `load` reads, if every pair means itself. -/
theorem load_save (getenv : List UInt8 → Option (List UInt8)) (props : Properties)
    (h : ∀ key value, props[key]? = some value → Clean key value) :
    load getenv (save props) = props := by
  have hclean : ∀ p ∈ props.toList, Clean p.1 p.2 := fun p hp =>
    h p.1 p.2 (Std.ExtTreeMap.mem_toList_iff_getElem?_eq_some.mp hp)
  have hnul : 0 ∉ save props := by
    intro hmem
    obtain ⟨p, hp, hb⟩ := List.mem_flatMap.mp hmem
    have hc := (hclean p hp).nul
    simp [hc.1, hc.2] at hb
  have hdefine : ∀ (list : List (List UInt8 × List UInt8)) (m : Properties),
      (∀ p ∈ list, Clean p.1 p.2) → (list.map pairLine ++ [[]]).foldl (define getenv) m =
        list.foldl (fun m p => m.insertIfNew p.1 p.2) m := by
    intro list
    induction list with
    | nil => exact fun m _ => define_nil getenv m
    | cons p list ih =>
      intro m hl
      rw [List.map_cons, List.cons_append, List.foldl_cons, List.foldl_cons,
        define_pairLine (hl p List.mem_cons_self)]
      exact ih _ fun q hq => hl q (List.mem_cons_of_mem p hq)
  rw [load_eq, map_glue hnul, save, split_save fun p hp => (hclean p hp).newline,
    hdefine _ _ hclean]
  refine Std.ExtTreeMap.ext_getElem? fun k => Option.ext fun v => ?_
  rw [getElem?_foldl_insertIfNew Std.ExtTreeMap.distinct_keys_toList (by simp),
    Std.ExtTreeMap.mem_toList_iff_getElem?_eq_some]
  simp

/-- Two pairs, one of them with an empty value. -/
def twoPairs : Properties := (∅ : Properties).insert (utf8 "a.b") (utf8 "c = d") |>.insert [122] []

theorem load_save_two : load (fun _ => none) (save twoPairs) = twoPairs := by
  refine load_save (fun _ => none) twoPairs fun key value h => ?_
  have hmem := Std.ExtTreeMap.mem_toList_iff_getElem?_eq_some.mpr h
  have hlist : twoPairs.toList = [(utf8 "a.b", utf8 "c = d"), ([122], [])] := by decide +kernel
  rw [hlist, List.mem_cons, List.mem_singleton] at hmem
  rcases hmem with he | he
  · cases he
    constructor <;> decide +kernel
  · cases he
    constructor <;> decide +kernel

end Save

end ShareBike.PropertyFile
