import ShareBike.CategoryTable
import ShareBike.PropertyConfiguratorAppenders

/-!
# The categories of a configuration

Every configured category gets what its own properties say, in whatever order the
categories come. Only the root can be configured by more than one line.
-/
namespace ShareBike.Configurator
open ShareBike.Lib ShareBike.Hierarchy ShareBike.PropertyFile ShareBike.Layout

variable {props : Properties} {all : List UInt8 → Option ℕ} {m m' : CategoryMap}
  {n categoryName : Name} {c c' : Category} {tokens : List (List UInt8)} {cs : List Name}

section Set

lemma mem_insertAppender {set : List ℕ} {a x : ℕ} :
    x ∈ insertAppender set a ↔ x = a ∨ x ∈ set := by
  unfold insertAppender
  split_ifs with h
  · constructor
    · exact .inr
    · rintro (rfl | hx)
      · exact h
      · exact hx
  · exact List.mem_orderedInsert (· ≤ ·)

lemma sorted_insertAppender {set : List ℕ} (h : set.Pairwise (· < ·)) (a : ℕ) :
    (insertAppender set a).Pairwise (· < ·) := by
  unfold insertAppender
  split_ifs with ha
  · exact h
  · have hle : (set.orderedInsert (· ≤ ·) a).Pairwise (· ≤ ·) :=
      (h.imp le_of_lt).orderedInsert a set
    have hnodup : (set.orderedInsert (· ≤ ·) a).Nodup :=
      (List.perm_orderedInsert (· ≤ ·) a set).nodup_iff.mpr
        (List.nodup_cons.mpr ⟨ha, h.imp ne_of_lt⟩)
    exact (hle.and hnodup).imp fun hlt => lt_of_le_of_ne hlt.1 hlt.2

lemma addAppenders_cons (token : List UInt8) : addAppenders all categoryName c (token :: tokens) =
    match all (trim token) with
    | none => .error (utf8 "Appender '" ++ trim token ++ utf8 "' not found for category '" ++
        categoryName ++ utf8 "'")
    | some appender => addAppenders all categoryName (c.addAppender appender) tokens := rfl

lemma addAppenders_ok_iff : (∃ c', addAppenders all categoryName c tokens = .ok c') ↔
    ∀ token ∈ tokens, ∃ appender, all (trim token) = some appender := by
  induction tokens generalizing c with
  | nil => simp [addAppenders]
  | cons token tokens ih =>
    rw [addAppenders_cons]
    cases hfound : all (trim token) with
    | none => simp [hfound]
    | some appender =>
      dsimp only
      rw [ih]
      simp [hfound]

/-- What the appenders that are added leave of a category. -/
lemma addAppenders_spec (h : addAppenders all categoryName c tokens = .ok c')
    (hsorted : c.appender.Pairwise (· < ·)) :
    c' = { c with appender := c'.appender } ∧ c'.appender.Pairwise (· < ·) ∧
    ∀ x, x ∈ c'.appender ↔ x ∈ c.appender ∨ ∃ token ∈ tokens, all (trim token) = some x := by
  induction tokens generalizing c with
  | nil =>
    cases h
    exact ⟨rfl, hsorted, by simp⟩
  | cons token tokens ih =>
    rw [addAppenders_cons] at h
    cases hfound : all (trim token) with
    | none =>
      rw [hfound] at h
      cases h
    | some appender =>
      rw [hfound] at h
      obtain ⟨hsame, hset, hmem⟩ := ih h (sorted_insertAppender hsorted appender)
      refine ⟨hsame, hset, fun x => ?_⟩
      rw [hmem x, Category.addAppender, mem_insertAppender]
      simp only [List.mem_cons, exists_eq_or_imp, hfound, Option.some.injEq]
      tauto

end Set

/-- The properties of a category can be used. -/
def Valid (props : Properties) (all : List UInt8 → Option ℕ) (categoryName : Name) : Prop :=
  ∃ value, props[categoryKey categoryName]? = some value ∧
    (∃ p, readPriority categoryName (split 44 value) = .ok p ∧
      (p < NOTSET ∨ target categoryName ≠ [])) ∧
    ∀ token ∈ (split 44 value).tail, ∃ appender, all (trim token) = some appender

/-- The entry that the properties of a category describe. -/
structure Describes (props : Properties) (all : List UInt8 → Option ℕ) (categoryName : Name)
    (value : List UInt8) (e : Entry) : Prop where
  found : props[categoryKey categoryName]? = some value
  priority : readPriority categoryName (split 44 value) = .ok e.priority
  additive : e.isAdditive = getBool props (utf8 "additivity." ++ categoryName) true
  sorted : e.appender.Pairwise (· < ·)
  appender : ∀ x, x ∈ e.appender ↔ ∃ token ∈ (split 44 value).tail, all (trim token) = some x

section Category

/-- `configureCategory` on the category that it gets. -/
lemma configureCategory_eq_ok_iff
    (hc : getInstance m (target categoryName) (target categoryName) = some c) :
    configureCategory props all m categoryName = .ok m' ↔
      ∃ value p c', props[categoryKey categoryName]? = some value ∧
        readPriority categoryName (split 44 value) = .ok p ∧ (p < NOTSET ∨ c.parent ≠ none) ∧
        addAppenders all categoryName ⟨c.parent, p,
          getBool props (utf8 "additivity." ++ categoryName) true, []⟩ (split 44 value).tail =
            .ok c' ∧
        m' = Function.update (getInstance m (target categoryName)) (target categoryName)
          (some c') := by
  unfold configureCategory
  cases hvalue : props[categoryKey categoryName]? with
  | none => simp
  | some value =>
    simp only [hc, Option.some.injEq, exists_and_left, exists_eq_left']
    cases hpriority : readPriority categoryName (split 44 value) with
    | error what => simp [bind, Except.bind]
    | ok p =>
      simp only [bind, Except.bind, pure, Except.pure, Category.setPriority, Except.ok.injEq,
        exists_eq_left', Category.removeAllAppenders]
      by_cases hallowed : p < NOTSET ∨ c.parent ≠ none
      · simp only [hallowed, if_true, Except.mapError, true_and]
        cases addAppenders all categoryName ⟨c.parent, p,
            getBool props (utf8 "additivity." ++ categoryName) true, []⟩ (split 44 value).tail with
        | error what => simp
        | ok c' => simp [eq_comm]
      · simp [Except.mapError, hallowed]

/-- The category that is got has a parent exactly if it is not the root. -/
lemma exists_instance (h : WellFormed m) (name : Name) :
    ∃ c, getInstance m name name = some c ∧ (c.parent ≠ none ↔ name ≠ []) := by
  have hadds := h.getInstance name
  obtain ⟨c, hc⟩ := Option.ne_none_iff_exists'.mp hadds.exists_self
  refine ⟨c, hc, ?_⟩
  by_cases hname : name = []
  · subst hname
    simp [(hadds.wellFormed.root c hc).1]
  · simp [(hadds.wellFormed.parent name c hname hc).1, hname]

lemma configureCategory_ok_iff (h : WellFormed m) :
    (∃ m', configureCategory props all m categoryName = .ok m') ↔ Valid props all categoryName := by
  obtain ⟨c, hc, hparent⟩ := exists_instance h (target categoryName)
  unfold Valid
  constructor
  · rintro ⟨m', hm'⟩
    obtain ⟨value, p, c', hvalue, hp, hallowed, hadd, -⟩ := (configureCategory_eq_ok_iff hc).mp hm'
    rw [hparent] at hallowed
    exact ⟨value, hvalue, ⟨p, hp, hallowed⟩, addAppenders_ok_iff.mp ⟨c', hadd⟩⟩
  · rintro ⟨value, hvalue, ⟨p, hp, hallowed⟩, hfound⟩
    rw [← hparent] at hallowed
    obtain ⟨c', hadd⟩ := addAppenders_ok_iff.mpr hfound
    exact ⟨_, (configureCategory_eq_ok_iff hc).mpr
      ⟨value, p, c', hvalue, hp, hallowed, hadd, rfl⟩⟩

/-- What configuring one category does. -/
lemma configureCategory_spec (h : WellFormed m)
    (hm' : configureCategory props all m categoryName = .ok m') :
    WellFormed m' ∧ (∀ n, m n ≠ none → m' n ≠ none) ∧ m' (target categoryName) ≠ none ∧
    (∀ n, n ≠ target categoryName → table m' n = table m n) ∧
    ∃ value, Describes props all categoryName value (table m' (target categoryName)) := by
  have hadds := h.getInstance (target categoryName)
  obtain ⟨c, hc, hparent⟩ := exists_instance h (target categoryName)
  obtain ⟨value, p, c', hvalue, hp, hallowed, hadd, rfl⟩ := (configureCategory_eq_ok_iff hc).mp hm'
  obtain ⟨hsame, hsorted, hmem⟩ := addAppenders_spec hadd List.Pairwise.nil
  have hpriority : c'.priority = p := congrArg Category.priority hsame
  have hadditive : c'.isAdditive = getBool props (utf8 "additivity." ++ categoryName) true :=
    congrArg Category.isAdditive hsame
  refine ⟨?_, ?_, ?_, ?_, value, ?_⟩
  · have hsameParent : c'.parent = c.parent := by rw [hsame]
    refine hadds.wellFormed.update hc hsameParent fun hroot _ => ?_
    rw [hpriority]
    exact hallowed.resolve_right (not_not.mpr hroot)
  · intro n hn
    by_cases he : n = target categoryName
    · rw [he, Function.update_self]
      exact Option.some_ne_none _
    · rw [Function.update_of_ne he, hadds.keeps n hn]
      exact hn
  · rw [Function.update_self]
    exact Option.some_ne_none _
  · intro n hn
    rw [table_update, Function.update_of_ne hn, hadds.table]
  · rw [table_update, Function.update_self]
    refine ⟨hvalue, ?_, hadditive, hsorted, fun x => ?_⟩
    · rw [hp, Category.entry, hpriority]
    · rw [Category.entry, hmem x]
      simp

end Category

/-- The last of the categories that is configured under a name. -/
def lastFor (n : Name) : List Name → Option Name
  | [] => none
  | categoryName :: rest =>
    match lastFor n rest with
    | some last => some last
    | none => if target categoryName = n then some categoryName else none

lemma configureCategories_cons (categoryName : Name) (cs : List Name) :
    configureCategories props all m (categoryName :: cs) =
      match configureCategory props all m categoryName with
      | .ok m' => configureCategories props all m' cs
      | .error what => .error what := by
  rw [configureCategories]
  cases configureCategory props all m categoryName <;> rfl

lemma configureCategories_ok_iff (h : WellFormed m) :
    (∃ m', configureCategories props all m cs = .ok m') ↔ ∀ n ∈ cs, Valid props all n := by
  induction cs generalizing m with
  | nil => simp [configureCategories]
  | cons categoryName cs ih =>
    rw [configureCategories_cons]
    cases hfirst : configureCategory props all m categoryName with
    | error what =>
      have hnot : ¬ Valid props all categoryName := by
        rw [← configureCategory_ok_iff h, hfirst]
        simp
      simp [hnot]
    | ok m₁ =>
      have hvalid := (configureCategory_ok_iff h).mp ⟨m₁, hfirst⟩
      dsimp only
      rw [ih (configureCategory_spec h hfirst).1]
      simp [hvalid]

/-- The run lemma: a name has the entry of the last category that was configured under it. -/
lemma configureCategories_spec (h : WellFormed m)
    (hm' : configureCategories props all m cs = .ok m') :
    WellFormed m' ∧ (∀ n, m n ≠ none → m' n ≠ none) ∧
    ∀ n, match lastFor n cs with
      | some last => m' n ≠ none ∧ ∃ value, Describes props all last value (table m' n)
      | none => table m' n = table m n := by
  induction cs generalizing m with
  | nil =>
    cases hm'
    exact ⟨h, fun n hn => hn, fun n => rfl⟩
  | cons categoryName cs ih =>
    rw [configureCategories_cons] at hm'
    cases hfirst : configureCategory props all m categoryName with
    | error what =>
      rw [hfirst] at hm'
      cases hm'
    | ok m₁ =>
      rw [hfirst] at hm'
      obtain ⟨hwf, hkept, hthere, hother, hdescribed⟩ := configureCategory_spec h hfirst
      obtain ⟨hwf', hkept', hlast⟩ := ih hwf hm'
      refine ⟨hwf', fun n hn => hkept' n (hkept n hn), fun n => ?_⟩
      have hn := hlast n
      unfold lastFor
      cases hrest : lastFor n cs with
      | some last =>
        rw [hrest] at hn
        exact hn
      | none =>
        rw [hrest] at hn
        dsimp only at hn ⊢
        by_cases htarget : target categoryName = n
        · rw [if_pos htarget]
          dsimp only
          rw [hn, ← htarget]
          exact ⟨hkept' _ hthere, hdescribed⟩
        · rw [if_neg htarget]
          exact hn.trans (hother n (Ne.symm htarget))

section Source

/-- The category line that decides about a name. For the root this is `rootCategory`, except
if there is a line without a name and no line of a category `rootCategory`. -/
def source (props : Properties) (n : Name) : Option Name :=
  if n = [] then
    if utf8 "category." ∈ props ∧ utf8 "category.rootCategory" ∉ props then some []
    else some (utf8 "rootCategory")
  else if n ≠ utf8 "rootCategory" ∧ utf8 "category." ++ n ∈ props then some n
  else none

variable {d e : Name}

lemma target_eq_iff : target d = n ↔
    d = utf8 "rootCategory" ∧ n = [] ∨ d ≠ utf8 "rootCategory" ∧ d = n := by
  unfold target
  split_ifs with h
  · simp [h, eq_comm]
  · simp [h]

lemma mem_of_lastFor (h : lastFor n cs = some d) : d ∈ cs ∧ target d = n := by
  induction cs with
  | nil => cases h
  | cons c cs ih =>
    unfold lastFor at h
    cases hrest : lastFor n cs with
    | some last =>
      rw [hrest] at h
      cases h
      exact ⟨List.mem_cons_of_mem c (ih hrest).1, (ih hrest).2⟩
    | none =>
      rw [hrest] at h
      dsimp only at h
      split_ifs at h with htarget
      cases h
      exact ⟨List.mem_cons_self, htarget⟩

lemma lastFor_eq_none_iff : lastFor n cs = none ↔ ∀ d ∈ cs, target d ≠ n := by
  induction cs with
  | nil => simp [lastFor]
  | cons c cs ih =>
    unfold lastFor
    cases hrest : lastFor n cs with
    | some last =>
      obtain ⟨hmem, htarget⟩ := mem_of_lastFor hrest
      simp only [reduceCtorEq, false_iff]
      exact fun h => h last (List.mem_cons_of_mem c hmem) htarget
    | none =>
      have hnot := ih.mp hrest
      simpa using fun _ => hnot

/-- Of sorted names the greatest one is the last one. -/
lemma le_lastFor (hsorted : cs.Pairwise (· < ·)) (h : lastFor n cs = some d) (he : e ∈ cs)
    (htarget : target e = n) : e = d ∨ e < d := by
  induction cs with
  | nil => cases he
  | cons c cs ih =>
    obtain ⟨hafter, hrest⟩ := List.pairwise_cons.mp hsorted
    unfold lastFor at h
    cases hlast : lastFor n cs with
    | some last =>
      rw [hlast] at h
      cases h
      rcases List.mem_cons.mp he with rfl | he
      · exact .inr (hafter d (mem_of_lastFor hlast).1)
      · exact ih hrest hlast he
    | none =>
      rw [hlast] at h
      dsimp only at h
      split_ifs at h
      cases h
      rcases List.mem_cons.mp he with rfl | he
      · exact .inl rfl
      · exact absurd htarget (lastFor_eq_none_iff.mp hlast e he)

lemma getCategories_eq (props : Properties) : getCategories props =
    utf8 "rootCategory" :: suffixes props (utf8 "category") := by
  have hlower : utf8 "category." = utf8 "category" ++ [46] := by decide
  have hupper : utf8 "category/" = utf8 "category" ++ [47] := by decide
  have hlength : 9 = (utf8 "category").length + 1 := by decide
  rw [getCategories, hlower, hupper, hlength]
  rfl

lemma mem_categories : n ∈ suffixes props (utf8 "category") ↔ utf8 "category." ++ n ∈ props :=
  mem_suffixes

lemma lastFor_getCategories (props : Properties) (n : Name) :
    lastFor n (getCategories props) = source props n := by
  have hroot : utf8 "category.rootCategory" = utf8 "category." ++ utf8 "rootCategory" := by decide
  have hempty : utf8 "category." = utf8 "category." ++ [] := by decide
  have hne : utf8 "rootCategory" ≠ [] := by decide
  rw [getCategories_eq, lastFor, source]
  cases hlast : lastFor n (suffixes props (utf8 "category")) with
  | none =>
    have hnot := lastFor_eq_none_iff.mp hlast
    dsimp only
    by_cases hn : n = []
    · subst hn
      have hblank : utf8 "category." ∉ props := by
        intro h
        rw [hempty, ← mem_categories] at h
        exact hnot [] h (target_eq_iff.mpr (.inr ⟨Ne.symm hne, rfl⟩))
      rw [if_pos (target_eq_iff.mpr (.inl ⟨rfl, rfl⟩)), if_pos rfl, if_neg fun h => hblank h.1]
    · have hother : ¬ (n ≠ utf8 "rootCategory" ∧ utf8 "category." ++ n ∈ props) := by
        rintro ⟨hname, h⟩
        exact hnot n (mem_categories.mpr h) (target_eq_iff.mpr (.inr ⟨hname, rfl⟩))
      rw [if_neg hn, if_neg hother, if_neg fun h => ?_]
      rcases target_eq_iff.mp h with ⟨-, h⟩ | ⟨h, -⟩
      · exact hn h
      · exact h rfl
  | some d =>
    obtain ⟨hmem, htarget⟩ := mem_of_lastFor hlast
    dsimp only
    rcases target_eq_iff.mp htarget with ⟨rfl, rfl⟩ | ⟨hname, rfl⟩
    · rw [mem_categories, ← hroot] at hmem
      rw [if_pos rfl, if_neg fun h => h.2 hmem]
    · by_cases hd : d = []
      · subst hd
        have hfirst : utf8 "category.rootCategory" ∉ props := by
          intro h
          rw [hroot, ← mem_categories] at h
          have hle := le_lastFor (sorted_suffixes props _) hlast h
            (target_eq_iff.mpr (.inl ⟨rfl, rfl⟩))
          exact hle.elim hne (List.not_lt_nil _)
        rw [mem_categories, ← hempty] at hmem
        rw [if_pos rfl, if_pos ⟨hmem, hfirst⟩]
      · rw [if_neg hd, if_pos ⟨hname, mem_categories.mp hmem⟩]

end Source

/-- The categories are configured exactly if the properties of each of them can be used, and
then a name has the entry that its own line describes, and all others keep theirs. -/
theorem categories_configured (props : Properties) (all : List UInt8 → Option ℕ)
    (h : WellFormed m) :
    ((∃ m', configureCategories props all m (getCategories props) = .ok m') ↔
      ∀ n ∈ getCategories props, Valid props all n) ∧
    ∀ m', configureCategories props all m (getCategories props) = .ok m' →
      WellFormed m' ∧ (∀ n, m n ≠ none → m' n ≠ none) ∧
      ∀ n, match source props n with
        | some line => m' n ≠ none ∧ ∃ value, Describes props all line value (table m' n)
        | none => table m' n = table m n := by
  refine ⟨configureCategories_ok_iff h, fun m' hm' => ?_⟩
  obtain ⟨hwf, hkept, hlast⟩ := configureCategories_spec h hm'
  refine ⟨hwf, hkept, fun n => ?_⟩
  rw [← lastFor_getCategories]
  exact hlast n

/-- A file in which the line without a name wins over `rootCategory`. -/
def twoRoots : Properties :=
  (∅ : Properties).insertIfNew (utf8 "rootCategory") (utf8 "DEBUG")
    |>.insertIfNew (utf8 "category.") (utf8 "WARN, A")

/-- The root has the priority of that line, and its appender. -/
theorem categories_configured_two_roots :
    ∃ m', configureCategories twoRoots (fun _ => some 3) (fun _ => none)
        (getCategories twoRoots) = .ok m' ∧
      (table m' []).priority = 400 ∧ 3 ∈ (table m' []).appender := by
  have hwf : WellFormed fun _ => none := ⟨by simp, by simp⟩
  have hnames : getCategories twoRoots = [utf8 "rootCategory", []] := by decide +kernel
  have hblank : twoRoots[categoryKey []]? = some (utf8 "WARN, A") := by decide +kernel
  have hvalid : ∀ n ∈ getCategories twoRoots, Valid twoRoots (fun _ => some 3) n := by
    rw [hnames]
    intro n hn
    rcases List.mem_pair.mp hn with rfl | rfl
    · exact ⟨utf8 "DEBUG", by decide +kernel, ⟨700, by decide +kernel, .inl (by decide)⟩,
        fun _ _ => ⟨3, rfl⟩⟩
    · exact ⟨utf8 "WARN, A", hblank, ⟨400, by decide +kernel, .inl (by decide)⟩,
        fun _ _ => ⟨3, rfl⟩⟩
  obtain ⟨hok, hspec⟩ := categories_configured twoRoots (fun _ => some 3) hwf
  obtain ⟨m', hm'⟩ := hok.mpr hvalid
  have hsource : source twoRoots [] = some [] := by decide +kernel
  have hroot := (hspec m' hm').2.2 []
  rw [hsource] at hroot
  obtain ⟨-, value, hdescribes⟩ := hroot
  have hvalue : value = utf8 "WARN, A" := by
    have hfound := hdescribes.found
    rw [hblank] at hfound
    exact (Option.some.inj hfound).symm
  subst hvalue
  refine ⟨m', hm', ?_, ?_⟩
  · have hpriority := hdescribes.priority
    have hread : readPriority [] (split 44 (utf8 "WARN, A")) = .ok 400 := by decide +kernel
    rw [hread] at hpriority
    exact (Except.ok.inj hpriority).symm
  · exact (hdescribes.appender 3).mpr ⟨utf8 " A", by decide +kernel, rfl⟩

end ShareBike.Configurator
