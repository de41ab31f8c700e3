import ShareBike.PatternLayout

/-!
# The last components of a category name

A precision `n` prints the last `n` components of a category name. The search for the
next dot starts two places before the component that was found last, which wraps around
if the name starts with a dot.
-/
namespace ShareBike.Layout
open ShareBike.Lib ShareBike.Hierarchy

/-- The components with dots between them. -/
def dotted : List Name → Name
  | [] => []
  | [c] => c
  | c :: d :: cs => c ++ 46 :: dotted (d :: cs)

/-- The last `n` components of a name; all of it if there are not so many. -/
def lastComponents (n : ℕ) (name : Name) : Name :=
  dotted ((split 46 name).drop ((split 46 name).length - n))

variable {name c : Name} {front back : List Name} {n i : ℕ}

lemma dotted_cons (c : Name) (h : back ≠ []) : dotted (c :: back) = c ++ 46 :: dotted back := by
  cases back with
  | nil => exact absurd rfl h
  | cons d back => rfl

lemma dotted_append (hfront : front ≠ []) (hback : back ≠ []) :
    dotted (front ++ back) = dotted front ++ 46 :: dotted back := by
  induction front with
  | nil => exact absurd rfl hfront
  | cons c front ih =>
    cases front with
    | nil => exact dotted_cons c hback
    | cons d front =>
      have hrest := ih (List.cons_ne_nil d front)
      rw [List.cons_append, dotted_cons c (by simp), hrest, dotted_cons c (by simp),
        List.append_assoc, List.cons_append]

lemma split_ne_nil (name : Name) : split 46 name ≠ [] := by
  rw [split]
  split <;> simp

/-- The components of a name have no dots, and with dots between them they are the name. -/
lemma dotted_split (name : Name) :
    dotted (split 46 name) = name ∧ ∀ c ∈ split 46 name, 46 ∉ c := by
  induction hlen : name.length using Nat.strong_induction_on generalizing name with
  | _ n ih =>
    cases hfind : find 46 name with
    | none =>
      have hdot := find_eq_none_iff.mp hfind
      rw [split_of_notMem hdot]
      exact ⟨rfl, by simpa using hdot⟩
    | some i =>
      obtain ⟨hname, hdot⟩ := find_split hfind
      have hlt := find_lt hfind
      have hrest := ih (name.drop (i + 1)).length (by rw [List.length_drop]; omega) _ rfl
      have hsplit : split 46 name = name.take i :: split 46 (name.drop (i + 1)) := by
        rw [← split_append hdot, ← hname]
      rw [hsplit, dotted_cons _ (split_ne_nil _), hrest.1]
      refine ⟨hname.symm, fun c hc => ?_⟩
      rcases List.mem_cons.mp hc with rfl | hc
      · exact hdot
      · exact hrest.2 c hc

lemma findLastOf_eq_none (h : 46 ∉ c) : findLastOf 46 c = none := by
  induction c with
  | nil => rfl
  | cons b c ih =>
    have hb : b ≠ 46 := fun he => h (he ▸ List.mem_cons_self)
    rw [findLastOf, ih fun hm => h (List.mem_cons_of_mem b hm)]
    exact if_neg hb

/-- The last dot is the one before a text without dots. -/
lemma findLastOf_append (h : 46 ∉ c) (name : Name) :
    findLastOf 46 (name ++ 46 :: c) = some name.length := by
  induction name with
  | nil => simp [findLastOf, findLastOf_eq_none h]
  | cons b name ih => rw [List.cons_append, findLastOf, ih, List.length_cons]

/-- A name that starts with a dot has a last one. -/
lemma findLastOf_dot (name : Name) : ∃ i, findLastOf 46 (46 :: name) = some i := by
  rw [findLastOf]
  cases findLastOf 46 name with
  | none => exact ⟨0, rfl⟩
  | some i => exact ⟨i + 1, rfl⟩

/-- Where the loop is when it has found the components `back`. -/
def startOf (front back : List Name) : Option ℕ :=
  if back = [] then none else some ((dotted front).length + 1)

/-- The search looks at the components that it has not found yet. -/
lemma rfindDot_startOf (hfront : front ≠ []) (hwrap : back = [] ∨ dotted front ≠ []) :
    rfindDot (dotted (front ++ back))
      ((startOf front back).bind fun i => if i < 2 then none else some (i - 2)) =
      findLastOf 46 (dotted front) := by
  unfold startOf
  split_ifs with hback
  · rw [hback, List.append_nil]
    rfl
  · have hpos : 0 < (dotted front).length :=
      List.length_pos_iff.mpr (hwrap.resolve_left hback)
    have hlong : ¬ (dotted front).length + 1 < 2 := by omega
    have htake : (dotted front).length + 1 - 2 + 1 = (dotted front).length := by omega
    rw [Option.bind_some, if_neg hlong, rfindDot, htake, dotted_append hfront hback,
      List.take_left]

/-- Without a wrap, `n` rounds find `n` more components, or the start of the name. -/
lemma beginLoop_startOf (hdots : ∀ c ∈ front, 46 ∉ c) (hfront : front ≠ [])
    (hwrap : front.head? = some [] → n < front.length ∨ (front.length = 1 ∧ back = [])) :
    beginLoop (dotted (front ++ back)) n (startOf front back) =
      if n < front.length then
        startOf (front.take (front.length - n)) (front.drop (front.length - n) ++ back)
      else some 0 := by
  induction n generalizing front back with
  | zero => simp [beginLoop, List.length_pos_iff.mpr hfront]
  | succ n ih =>
    obtain ⟨init, c, rfl⟩ : ∃ init c, front = init ++ [c] :=
      ⟨_, _, (List.dropLast_append_getLast hfront).symm⟩
    have hc : 46 ∉ c := hdots c (by simp)
    have hsearch : back = [] ∨ dotted (init ++ [c]) ≠ [] := by
      by_cases hback : back = []
      · exact .inl hback
      · refine .inr fun hempty => ?_
        cases init with
        | nil =>
          have hlen := hwrap (by simpa [dotted] using hempty)
          simp [hback] at hlen
        | cons d init =>
          rw [dotted_append (List.cons_ne_nil d init) (List.cons_ne_nil c [])] at hempty
          simp at hempty
    rw [beginLoop, rfindDot_startOf hfront hsearch]
    by_cases hinit : init = []
    · subst hinit
      rw [List.nil_append, dotted, findLastOf_eq_none hc]
      simp
    · have hstart : some ((dotted init).length + 1) = startOf init (c :: back) := by
        simp [startOf]
      rw [dotted_append hinit (List.cons_ne_nil c []), dotted, findLastOf_append hc]
      dsimp only
      rw [hstart, List.append_assoc, List.singleton_append, ih (fun d hd => hdots d (by simp [hd]))
        hinit ?_]
      · have hlen : (init ++ [c]).length = init.length + 1 := by simp
        rw [hlen]
        by_cases hlt : n < init.length
        · have hsub : init.length + 1 - (n + 1) = init.length - n := by omega
          rw [if_pos hlt, if_pos (by omega), hsub, List.take_append_of_le_length (by omega),
            List.drop_append_of_le_length (by omega), List.append_assoc]
          rfl
        · rw [if_neg hlt, if_neg (by omega)]
      · intro hhead
        have hlen := hwrap (by
          cases init with
          | nil => cases hhead
          | cons d init => exact hhead)
        have hpos := List.length_pos_iff.mpr hinit
        simp only [List.length_append, List.length_singleton] at hlen
        exact .inl (by omega)

/-- Every round of the loop finds a dot if the name starts with one. -/
lemma beginLoop_dot (name : Name) (start : Option ℕ) (h : 0 < n) :
    ∃ i, beginLoop (46 :: name) n start = some (i + 1) := by
  induction n generalizing start with
  | zero => exact absurd h (Nat.lt_irrefl 0)
  | succ n ih =>
    have hfound : ∀ start, ∃ i, rfindDot (46 :: name) start = some i := by
      rintro (_ | pos)
      · exact findLastOf_dot name
      · rw [rfindDot, List.take_succ_cons]
        exact findLastOf_dot _
    obtain ⟨i, hi⟩ := hfound (start.bind fun i => if i < 2 then none else some (i - 2))
    rw [beginLoop, hi]
    dsimp only
    by_cases hn : n = 0
    · exact ⟨i, by rw [hn, beginLoop]⟩
    · exact ih (some (i + 1)) (Nat.pos_of_ne_zero hn)

/-- A precision prints the last components of a name, except if the name starts with a dot
and the precision asks for all of it. -/
theorem categoryText_iff (name : Name) (n : ℕ) (hn : 0 < n) :
    categoryText n name = lastComponents n name ↔
      (name.head? = some 46 → n < (split 46 name).length) := by
  have hprec : (n : ℤ) ≠ -1 := by omega
  rw [categoryText, if_neg hprec, Int.toNat_natCast, lastComponents]
  obtain ⟨hname, hdots⟩ := dotted_split name
  have hne := split_ne_nil name
  constructor
  · intro h hdot
    by_contra hlong
    cases name with
    | nil => cases hdot
    | cons b name =>
      cases hdot
      obtain ⟨i, hi⟩ := beginLoop_dot name none hn
      have hall : (split 46 (46 :: name)).length - n = 0 := by omega
      rw [hi, hall, List.drop_zero, hname] at h
      have hlen := congrArg List.length h
      simp at hlen
      omega
  · intro h
    have hloop : beginLoop (dotted (split 46 name ++ [])) n (startOf (split 46 name) []) = _ :=
      beginLoop_startOf hdots hne ?_
    · have hstart : startOf (split 46 name) [] = none := rfl
      rw [List.append_nil, hname, hstart, List.append_nil] at hloop
      rw [hloop]
      by_cases hlt : n < (split 46 name).length
      · have htake : (split 46 name).take ((split 46 name).length - n) ≠ [] := by
          rw [Ne, List.take_eq_nil_iff]
          exact not_or.mpr ⟨by omega, hne⟩
        have hdrop : (split 46 name).drop ((split 46 name).length - n) ≠ [] := by
          rw [Ne, List.drop_eq_nil_iff]
          omega
        have hparts := dotted_append htake hdrop
        rw [List.take_append_drop, hname] at hparts
        have hrest : ∀ F B : Name, (F ++ 46 :: B).drop (F.length + 1) = B := by simp
        have hlast := hrest (dotted ((split 46 name).take ((split 46 name).length - n)))
          (dotted ((split 46 name).drop ((split 46 name).length - n)))
        rw [if_pos hlt, startOf, if_neg hdrop, Option.getD_some]
        rwa [← hparts] at hlast
      · have hzero : (split 46 name).length - n = 0 := by omega
        rw [if_neg hlt, hzero, List.drop_zero, hname]
        rfl
    · intro hhead
      cases hsplit : split 46 name with
      | nil => exact absurd hsplit hne
      | cons c cs =>
        rw [hsplit] at hhead hname
        cases hhead
        cases cs with
        | nil => exact .inr ⟨rfl, rfl⟩
        | cons d cs =>
          rw [dotted_cons [] (List.cons_ne_nil d cs), List.nil_append] at hname
          rw [← hsplit]
          exact .inl (h (by rw [← hname]; rfl))

/-- The last two components of `a.b.c`, and what is printed instead of all of `.a`. -/
theorem categoryText_iff_two :
    categoryText 2 [97, 46, 98, 46, 99] = lastComponents 2 [97, 46, 98, 46, 99] ∧
    ¬ categoryText 2 [46, 97] = lastComponents 2 [46, 97] := by
  constructor
  · exact (categoryText_iff [97, 46, 98, 46, 99] 2 (by decide)).mpr (by decide)
  · exact mt (categoryText_iff [46, 97] 2 (by decide)).mp (by decide +kernel)

end ShareBike.Layout
