import ShareBike.Properties

/-!
# Variables in property values

Every `${key}` of a text is replaced once, from left to right, and what replaces it is
not read again. Any text can be written so that it is its own value.
-/
namespace ShareBike.PropertyFile
open ShareBike.Lib

variable {text pre rest key : List UInt8} {i : ℕ} (value : List UInt8 → List UInt8)

/-- A text without `${`. -/
def Literal (text : List UInt8) : Prop := findWord [36, 123] text = none

instance : DecidablePred Literal := fun text =>
  inferInstanceAs (Decidable (findWord [36, 123] text = none))

lemma findWord_cons (b : UInt8) (text : List UInt8) : findWord [36, 123] (b :: text) =
    if b = 36 ∧ text.head? = some 123 then some 0
    else (findWord [36, 123] text).map (· + 1) := by
  rw [findWord]
  cases text with
  | nil => simp [List.isPrefixOf]
  | cons c text =>
    by_cases h : b = 36 ∧ c = 123
    · simp [List.isPrefixOf, h.1, h.2]
    · have h' : ¬ (36 = b ∧ 123 = c) := fun hs => h ⟨hs.1.symm, hs.2.symm⟩
      simp [List.isPrefixOf, h, h']

/-- The first `${` is the one after a text without it. -/
lemma findWord_literal (h : Literal pre) (rest : List UInt8) :
    findWord [36, 123] (pre ++ 36 :: 123 :: rest) = some pre.length := by
  induction pre with
  | nil => rfl
  | cons b pre ih =>
    rw [Literal, findWord_cons] at h
    split_ifs at h with hopen
    have hpre : Literal pre := Option.map_eq_none_iff.mp h
    have hhead : ¬ (b = 36 ∧ (pre ++ 36 :: 123 :: rest).head? = some 123) := by
      cases pre with
      | nil => simp
      | cons c pre => exact hopen
    rw [List.cons_append, findWord_cons, if_neg hhead, ih hpre]
    rfl

/-- What the search for `${` finds. -/
lemma findWord_split (h : findWord [36, 123] text = some i) :
    text = text.take i ++ 36 :: 123 :: text.drop (i + 2) ∧ Literal (text.take i) := by
  induction text generalizing i with
  | nil => cases h
  | cons b text ih =>
    rw [findWord_cons] at h
    split_ifs at h with hopen
    · cases h
      obtain ⟨rfl, hhead⟩ := hopen
      cases text with
      | nil => cases hhead
      | cons c text =>
        cases hhead
        exact ⟨by simp, rfl⟩
    · obtain ⟨j, hj, rfl⟩ := Option.map_eq_some_iff.mp h
      obtain ⟨htext, hlit⟩ := ih hj
      refine ⟨by simpa using htext, ?_⟩
      have hhead : ¬ (b = 36 ∧ (text.take j).head? = some 123) := by
        rw [List.head?_take]
        split_ifs
        · simp
        · exact hopen
      rw [List.take_succ_cons, Literal, findWord_cons, if_neg hhead, hlit]
      rfl

lemma substitute_literal (h : Literal text) : substitute value text = text := by
  rw [substitute, h]

/-- A variable that is not closed stays as it is. -/
lemma substitute_open (h : Literal pre) (hrest : 125 ∉ rest) :
    substitute value (pre ++ 36 :: 123 :: rest) = pre ++ 36 :: 123 :: rest := by
  have hdrop : (pre ++ 36 :: 123 :: rest).drop (pre.length + 2) = rest := by simp
  rw [substitute, findWord_literal h]
  dsimp only
  split
  · rfl
  · rename_i len hlen
    rw [hdrop, find_eq_none_iff.mpr hrest] at hlen
    cases hlen

lemma substitute_variable (h : Literal pre) (hkey : 125 ∉ key) (rest : List UInt8) :
    substitute value (pre ++ 36 :: 123 :: (key ++ 125 :: rest)) =
      pre ++ value key ++ substitute value rest := by
  have hdrop : (pre ++ 36 :: 123 :: (key ++ 125 :: rest)).drop (pre.length + 2) =
      key ++ 125 :: rest := by simp
  have hrest : (pre ++ 36 :: 123 :: (key ++ 125 :: rest)).drop
      (pre.length + 2 + key.length + 1) = rest := by
    rw [Nat.add_assoc, ← List.drop_drop, hdrop]
    simp
  rw [substitute, findWord_literal h]
  dsimp only
  split
  · rename_i hnone
    rw [hdrop, find_append hkey] at hnone
    cases hnone
  · rename_i len hlen
    rw [hdrop, find_append hkey] at hlen
    cases hlen
    rw [hdrop, hrest, List.take_left, List.take_left]

/-- A text as it is read: a start, then keys each with the text after it, and a last
`${` that nothing closes, if there is one. -/
structure Template where
  start : List UInt8
  vars : List (List UInt8 × List UInt8)
  tail : Option (List UInt8)

namespace Template

/-- The text of the parts. -/
def render (t : Template) : List UInt8 :=
  t.start ++ (t.vars.flatMap fun p => 36 :: 123 :: (p.1 ++ 125 :: p.2)) ++
    match t.tail with
    | none => []
    | some rest => 36 :: 123 :: rest

/-- The text with the keys replaced. -/
def replaced (t : Template) : List UInt8 :=
  t.start ++ (t.vars.flatMap fun p => value p.1 ++ p.2) ++
    match t.tail with
    | none => []
    | some rest => 36 :: 123 :: rest

/-- The parts are as the searches find them. -/
structure Clear (t : Template) : Prop where
  start : Literal t.start
  vars : ∀ p ∈ t.vars, 125 ∉ p.1 ∧ Literal p.2
  tail : ∀ rest, t.tail = some rest → 125 ∉ rest

end Template

lemma render_cons (start : List UInt8) (p : List UInt8 × List UInt8)
    (vars : List (List UInt8 × List UInt8)) (tail : Option (List UInt8)) :
    (⟨start, p :: vars, tail⟩ : Template).render =
      start ++ 36 :: 123 :: (p.1 ++ 125 :: (⟨p.2, vars, tail⟩ : Template).render) := by
  simp [Template.render]

lemma substitute_render {t : Template} (h : t.Clear) :
    substitute value t.render = t.replaced value := by
  obtain ⟨start, vars, tail⟩ := t
  induction vars generalizing start with
  | nil =>
    cases tail with
    | none =>
      have hstart : Literal (start ++ [] ++ []) := by simpa using h.start
      exact substitute_literal value hstart
    | some rest =>
      have hopen := substitute_open value h.start (h.tail rest rfl)
      simpa [Template.render, Template.replaced] using hopen
  | cons p vars ih =>
    have hp := h.vars p List.mem_cons_self
    have hrest := ih p.2 ⟨hp.2, fun q hq => h.vars q (List.mem_cons_of_mem p hq), h.tail⟩
    rw [render_cons, substitute_variable value h.start hp.1, hrest]
    simp [Template.replaced]

lemma exists_render (text : List UInt8) : ∃ t : Template, t.Clear ∧ t.render = text := by
  induction hlen : text.length using Nat.strong_induction_on generalizing text with
  | _ n ih =>
    cases hopen : findWord [36, 123] text with
    | none => exact ⟨⟨text, [], none⟩, ⟨hopen, by simp, by simp⟩, by simp [Template.render]⟩
    | some i =>
      obtain ⟨htext, hlit⟩ := findWord_split hopen
      cases hclose : find 125 (text.drop (i + 2)) with
      | none =>
        have hrest := find_eq_none_iff.mp hclose
        refine ⟨⟨text.take i, [], some (text.drop (i + 2))⟩, ⟨hlit, by simp, ?_⟩, ?_⟩
        · rintro rest hr
          cases hr
          exact hrest
        · simp [Template.render, ← htext]
      | some j =>
        obtain ⟨hrest, hkey⟩ := find_split hclose
        have hlt := find_lt hclose
        rw [List.length_drop] at hlt
        obtain ⟨t, hclear, htail⟩ := ih ((text.drop (i + 2)).drop (j + 1)).length
          (by rw [List.length_drop, List.length_drop]; omega) _ rfl
        refine ⟨⟨text.take i, ((text.drop (i + 2)).take j, t.start) :: t.vars, t.tail⟩,
          ⟨hlit, ?_, hclear.tail⟩, ?_⟩
        · intro p hp
          rcases List.mem_cons.mp hp with rfl | hp
          · exact ⟨hkey, hclear.start⟩
          · exact hclear.vars p hp
        · rw [render_cons, htail, ← hrest, ← htext]

/-- A text in which every `${` is written as `${${}`. -/
def escape : List UInt8 → List UInt8
  | 36 :: 123 :: text => 36 :: 123 :: 36 :: 123 :: 125 :: escape text
  | b :: text => b :: escape text
  | [] => []

lemma escape_literal (h : Literal pre) : escape pre = pre := by
  induction pre with
  | nil => rfl
  | cons b pre ih =>
    rw [Literal, findWord_cons] at h
    split_ifs at h with hopen
    rw [escape, ih (Option.map_eq_none_iff.mp h)]
    rintro text rfl rfl
    exact hopen ⟨rfl, rfl⟩

lemma escape_open (h : Literal pre) (rest : List UInt8) :
    escape (pre ++ 36 :: 123 :: rest) = pre ++ 36 :: 123 :: (36 :: 123 :: 125 :: escape rest) := by
  induction pre with
  | nil => rfl
  | cons b pre ih =>
    rw [Literal, findWord_cons] at h
    split_ifs at h with hopen
    rw [List.cons_append, escape, ih (Option.map_eq_none_iff.mp h)]
    · rfl
    · rintro text rfl htext
      cases pre with
      | nil => cases htext
      | cons c pre =>
        cases htext
        exact hopen ⟨rfl, rfl⟩

/-- The substitution, over any environment and any properties: every text has parts, the
keys of which are replaced by their values and nothing else; and what is escaped comes
out as it was. -/
theorem substitute_spec (getenv : List UInt8 → Option (List UInt8)) (props : Properties)
    (text : List UInt8) :
    (∃ t : Template, t.Clear ∧ t.render = text ∧
      substituteVariables getenv props text = t.replaced (valueOf getenv props)) ∧
    substituteVariables getenv props (escape text) = text := by
  constructor
  · obtain ⟨t, hclear, rfl⟩ := exists_render text
    exact ⟨t, hclear, rfl, substitute_render _ hclear⟩
  · induction hlen : text.length using Nat.strong_induction_on generalizing text with
    | _ n ih =>
      cases hopen : findWord [36, 123] text with
      | none =>
        rw [escape_literal hopen]
        exact substitute_literal _ hopen
      | some i =>
        obtain ⟨htext, hlit⟩ := findWord_split hopen
        have hlt := congrArg List.length htext
        rw [List.length_append, List.length_cons, List.length_cons, List.length_drop] at hlt
        have hrest := ih (text.drop (i + 2)).length
          (by rw [List.length_drop]; simp at hlt; omega) _ rfl
        have hsub := substitute_variable (valueOf getenv props) hlit
          (by decide : (125 : UInt8) ∉ ([36, 123] : List UInt8)) (escape (text.drop (i + 2)))
        rw [htext, escape_open hlit]
        refine hsub.trans ?_
        have hvalue : valueOf getenv props [36, 123] = [36, 123] := rfl
        rw [substituteVariables] at hrest
        rw [hrest, hvalue]
        simp

/-- A variable of the environment, a property and an unknown key. -/
example : substituteVariables (fun key => if key = utf8 "E" then some (utf8 "x") else none)
    ((∅ : Properties).insert (utf8 "p") (utf8 "$\x7bE\x7d"))
    (utf8 "a$\x7bE\x7db$\x7bp\x7dc$\x7bq\x7dd$\x7b") =
    utf8 "axb$\x7bE\x7dcd$\x7b" := by decide +kernel

end ShareBike.PropertyFile
