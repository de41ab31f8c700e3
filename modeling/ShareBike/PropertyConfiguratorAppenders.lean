import ShareBike.Lib.Lex
import ShareBike.PropertyConfigurator

/-!
# The appenders of a configuration

`instantiateAllAppenders` goes through the sorted keys and makes an appender where it
meets the key that is only its name. The other keys of an appender have to follow at once.
-/
namespace ShareBike.Configurator
open ShareBike.Lib ShareBike.Hierarchy ShareBike.PropertyFile ShareBike.Layout

variable {props : Properties} {word key r appenderName : List UInt8} {rs names : List (List UInt8)}

section Keys

/-- What follows the word and a dot in the keys of the map. -/
def suffixes (props : Properties) (word : List UInt8) : List (List UInt8) :=
  (range props (word ++ [46]) (word ++ [47])).map fun p => p.1.drop (word.length + 1)

lemma mem_range_iff {p : List UInt8 × List UInt8} :
    p ∈ range props (word ++ [46]) (word ++ [47]) ↔
      p ∈ props.toList ∧ ∃ r, p.1 = word ++ 46 :: r := by
  have hnext : ∀ x : UInt8, ¬ x < 46 ∧ x < 47 ↔ x = 46 := by
    intro x
    rw [UInt8.lt_iff_toNat_lt, UInt8.lt_iff_toNat_lt, ← UInt8.toNat_inj]
    have h46 : (46 : UInt8).toNat = 46 := rfl
    have h47 : (47 : UInt8).toNat = 47 := rfl
    omega
  rw [range, List.mem_filter, decide_eq_true_iff, between_iff hnext]

lemma map_range_eq : (range props (word ++ [46]) (word ++ [47])).map Prod.fst =
    (suffixes props word).map fun r => word ++ 46 :: r := by
  rw [suffixes, List.map_map]
  refine List.map_congr_left fun p hp => ?_
  obtain ⟨r, hr⟩ := (mem_range_iff.mp hp).2
  simp [hr]

lemma mem_suffixes : r ∈ suffixes props word ↔ word ++ 46 :: r ∈ props := by
  unfold suffixes
  constructor
  · intro h
    obtain ⟨p, hp, rfl⟩ := List.mem_map.mp h
    obtain ⟨hmem, r, hr⟩ := mem_range_iff.mp hp
    have hvalue := Std.ExtTreeMap.mem_toList_iff_getElem?_eq_some.mp hmem
    have hdrop : p.1.drop (word.length + 1) = r := by simp [hr]
    rw [hdrop, ← hr]
    exact Std.ExtTreeMap.mem_iff_isSome_getElem?.mpr (by rw [hvalue]; rfl)
  · intro h
    obtain ⟨value, hvalue⟩ := Option.isSome_iff_exists.mp
      (Std.ExtTreeMap.mem_iff_isSome_getElem?.mp h)
    have hmem := Std.ExtTreeMap.mem_toList_iff_getElem?_eq_some.mpr hvalue
    exact List.mem_map.mpr ⟨_, mem_range_iff.mpr ⟨hmem, r, rfl⟩, by simp⟩

lemma sorted_suffixes (props : Properties) (word : List UInt8) :
    (suffixes props word).Pairwise (· < ·) := by
  have hkeys : (range props (word ++ [46]) (word ++ [47])).Pairwise fun p q => p.1 < q.1 :=
    (Std.ExtTreeMap.ordered_keys_toList.imp compare_eq_lt_iff.mp).filter _
  have hmapped : ((suffixes props word).map fun r => word ++ 46 :: r).Pairwise (· < ·) := by
    rw [← map_range_eq]
    exact List.pairwise_map.mpr hkeys
  refine (List.pairwise_map.mp hmapped).imp fun h => ?_
  rw [append_lt_append_iff, List.cons_lt_cons_iff] at h
  simpa using h

end Keys

/-- There is a key that is only the name of the appender. -/
def Defined (props : Properties) (appenderName : List UInt8) : Prop :=
  46 ∉ appenderName ∧ appenderName ≠ [] ∧ appenderPrefix appenderName ∈ props

/-- The appenders that were there, and one for each of the names. -/
structure Registered (make : List UInt8 → Except (List UInt8) Made) (names : List (List UInt8))
    (a a' : Appenders) : Prop where
  kept : a.made <+: a'.made
  other : ∀ n, n ∉ names → a'.allAppenders n = a.allAppenders n
  mine : ∀ n ∈ names, ∃ i x, a'.allAppenders n = some i ∧ a.made.length ≤ i ∧
    a'.made[i]? = some x ∧ make n = .ok x
  only : ∀ i x, a.made.length ≤ i → a'.made[i]? = some x →
    ∃ n ∈ names, a'.allAppenders n = some i ∧ make n = .ok x

variable {make : List UInt8 → Except (List UInt8) Made} {a a' : Appenders}
  {current : List UInt8} {x : Made}

lemma Registered.nil : Registered make [] a a where
  kept := List.prefix_rfl
  other n _ := rfl
  mine n hn := by cases hn
  only i x hi hx := by
    rw [List.getElem?_eq_none hi] at hx
    cases hx

lemma Registered.cons {n : List UInt8} (hn : n ∉ names) (hx : make n = .ok x)
    (h : Registered make names (a.add n x) a') : Registered make (n :: names) a a' := by
  have hfront : a.made <+: (a.add n x).made := List.prefix_append _ _
  have hlength : (a.add n x).made.length = a.made.length + 1 := List.length_append
  have hself : a'.allAppenders n = some a.made.length :=
    (h.other n hn).trans (Function.update_self ..)
  have hget : a'.made[a.made.length]? = some x := by
    rw [List.prefix_iff_getElem?.mp h.kept a.made.length (by omega)]
    simp [Appenders.add]
  refine ⟨hfront.trans h.kept, ?_, ?_, ?_⟩
  · intro m hm
    have hne : m ≠ n := fun he => hm (he ▸ List.mem_cons_self)
    rw [h.other m fun hmem => hm (List.mem_cons_of_mem n hmem)]
    exact Function.update_of_ne hne ..
  · intro m hm
    rcases List.mem_cons.mp hm with rfl | hm
    · exact ⟨a.made.length, x, hself, le_rfl, hget, hx⟩
    · obtain ⟨i, y, hi, hle, hy, hmake⟩ := h.mine m hm
      exact ⟨i, y, hi, by omega, hy, hmake⟩
  · intro i y hi hy
    by_cases heq : i = a.made.length
    · subst heq
      rw [hget] at hy
      cases hy
      exact ⟨n, List.mem_cons_self, hself, hx⟩
    · obtain ⟨m, hm, hrest⟩ := h.only i y (by omega) hy
      exact ⟨m, List.mem_cons_of_mem n hm, hrest⟩

section Loop

/-- The loop on a key: what the pieces of the key are compared with. -/
lemma instantiateLoop_cons (make : List UInt8 → Except (List UInt8) Made)
    (current : List UInt8) (a : Appenders) (r : List UInt8) (keys : List (List UInt8)) :
    instantiateLoop make current a (appenderPrefix r :: keys) =
      if upTo 46 r = current then instantiateLoop make current a keys
      else if upTo 46 r = r then
        match make r with
        | .ok appender => instantiateLoop make r (a.add r appender) keys
        | .error what => .error what
      else .error (utf8 "partial appender definition : " ++ appenderPrefix r) := by
  have hword : (46 : UInt8) ∉ utf8 "appender" := by decide
  have hsplit : split 46 (appenderPrefix r) = utf8 "appender" :: split 46 r := by
    rw [← split_append hword]
    rfl
  rw [instantiateLoop, hsplit]
  by_cases hdot : 46 ∈ r
  · obtain ⟨n, t, hr, hn⟩ : ∃ n t, r = n ++ 46 :: t ∧ 46 ∉ n := by
      obtain ⟨i, hi⟩ := Option.ne_none_iff_exists'.mp (mt find_eq_none_iff.mp (not_not.mpr hdot))
      exact ⟨_, _, find_split hi⟩
    have hne : upTo 46 r ≠ r := mt upTo_eq_self_iff.mp (not_not.mpr hdot)
    have hrest : split 46 t ≠ [] := by
      rw [split]
      split <;> exact List.cons_ne_nil _ _
    rw [if_neg hne, hr, split_append hn, upTo_append hn]
    simp only [hrest, if_false]
  · have hplain := upTo_eq_self_iff.mpr hdot
    cases hmake : make r <;> simp [split_of_notMem hdot, hplain, hmake]

/-- The loop goes through exactly if the scan of the names does and every appender can be
made. -/
lemma instantiateLoop_ok_iff :
    (∃ a', instantiateLoop make current a (rs.map appenderPrefix) = .ok a') ↔
      ∃ names, groupScan (upTo 46) current rs = .ok names ∧ ∀ n ∈ names, ∃ x, make n = .ok x := by
  induction rs generalizing current a with
  | nil => simp [instantiateLoop, groupScan]
  | cons r rs ih =>
    rw [List.map_cons, instantiateLoop_cons]
    unfold groupScan
    by_cases hcur : upTo 46 r = current
    · rw [if_pos hcur, if_pos hcur]
      exact ih
    · rw [if_neg hcur, if_neg hcur]
      by_cases hplain : upTo 46 r = r
      · rw [if_pos hplain, if_pos hplain]
        cases hmake : make r with
        | error what =>
          cases groupScan (upTo 46) r rs with
          | error e => simp [Functor.map, Except.map]
          | ok later => simp [Functor.map, Except.map, hmake]
        | ok appender =>
          dsimp only
          rw [ih]
          cases groupScan (upTo 46) r rs with
          | error e => simp [Functor.map, Except.map]
          | ok later => simp [Functor.map, Except.map, hmake]
      · rw [if_neg hplain, if_neg hplain]
        simp

lemma instantiateLoop_registered (hloop : instantiateLoop make current a
    (rs.map appenderPrefix) = .ok a') (hscan : groupScan (upTo 46) current rs = .ok names)
    (hnodup : names.Nodup) : Registered make names a a' := by
  induction rs generalizing current a names with
  | nil =>
    cases hscan
    cases hloop
    exact .nil
  | cons r rs ih =>
    rw [List.map_cons, instantiateLoop_cons] at hloop
    unfold groupScan at hscan
    split_ifs at hloop hscan with hcur hplain
    · exact ih hloop hscan hnodup
    · cases hmake : make r with
      | error what =>
        rw [hmake] at hloop
        cases hloop
      | ok appender =>
        rw [hmake] at hloop
        cases hlater : groupScan (upTo 46) r rs with
        | error e =>
          rw [hlater] at hscan
          cases hscan
        | ok later =>
          rw [hlater] at hscan
          cases hscan
          obtain ⟨hnotMem, hrest⟩ := List.nodup_cons.mp hnodup
          exact .cons hnotMem hmake (ih hloop hlater hrest)

end Loop

section Results

lemma keys_eq (props : Properties) : (range props (utf8 "appender.") (utf8 "appender/")).map
    Prod.fst = (suffixes props (utf8 "appender")).map appenderPrefix := by
  have hlower : utf8 "appender." = utf8 "appender" ++ [46] := by decide
  have hupper : utf8 "appender/" = utf8 "appender" ++ [47] := by decide
  have hfront : appenderPrefix = fun r => utf8 "appender" ++ 46 :: r := by
    funext r
    rfl
  rw [hlower, hupper, hfront]
  exact map_range_eq

lemma mem_appenders : r ∈ suffixes props (utf8 "appender") ↔ appenderPrefix r ∈ props :=
  mem_suffixes

/-- The names of the appenders are the keys with only a name. -/
lemma mem_names_iff {n : List UInt8} :
    (n ∈ (suffixes props (utf8 "appender")).filter fun k => upTo 46 k = k ∧ k ≠ []) ↔
      Defined props n := by
  unfold Defined
  rw [List.mem_filter, decide_eq_true_iff, mem_appenders, upTo_eq_self_iff]
  tauto

/-- The keys of every appender follow the key of its name, and no other name comes in
between. -/
lemma grouped_iff : Grouped (upTo 46) [] (suffixes props (utf8 "appender")) ↔
    ∀ n rest, 46 ∉ n → appenderPrefix (n ++ 46 :: rest) ∈ props →
      (n = [] ∨ Defined props n) ∧ ∀ b m, b < 46 → ¬ Defined props (n ++ b :: m) := by
  constructor
  · intro h n rest hn hmem
    have hname : upTo 46 (n ++ 46 :: rest) = n := upTo_append hn rest
    obtain ⟨hbegun, hbetween⟩ := h _ (mem_appenders.mpr hmem) (by rw [hname]; simp)
    rw [hname] at hbegun hbetween
    refine ⟨?_, ?_⟩
    · by_cases hempty : n = []
      · exact .inl hempty
      · exact .inr ⟨hn, hempty, mem_appenders.mp (hbegun.resolve_left hempty)⟩
    · rintro b m hb ⟨hdots, -, hkey⟩
      obtain ⟨hafter, hbefore⟩ := (between_group_iff (t := rest) hdots).mpr ⟨b, m, rfl, hb⟩
      exact hbetween _ (mem_appenders.mpr hkey) (upTo_eq_self_iff.mpr hdots) hafter hbefore
  · intro h k hk hne
    obtain ⟨i, hi⟩ := Option.ne_none_iff_exists'.mp
      (mt find_eq_none_iff.mp (mt upTo_eq_self_iff.mpr hne))
    obtain ⟨hsplit, hn⟩ := find_split hi
    rw [hsplit] at hk ⊢
    rw [upTo_append hn]
    obtain ⟨hdefined, hclear⟩ := h _ _ hn (mem_appenders.mp hk)
    refine ⟨hdefined.imp_right fun hd => mem_appenders.mpr hd.2.2, ?_⟩
    intro g hg hplain hafter hbefore
    have hdots := upTo_eq_self_iff.mp hplain
    obtain ⟨b, m, rfl, hb⟩ := (between_group_iff hdots).mp ⟨hafter, hbefore⟩
    exact hclear b m hb ⟨hdots, by simp, mem_appenders.mp hg⟩

lemma scan_eq_ok_iff : groupScan (upTo 46) [] (suffixes props (utf8 "appender")) = .ok names ↔
    Grouped (upTo 46) [] (suffixes props (utf8 "appender")) ∧
      names = (suffixes props (utf8 "appender")).filter fun k => upTo 46 k = k ∧ k ≠ [] := by
  refine groupScan_eq_ok_iff (naming_upTo 46) (sorted_suffixes props _) fun k _ hk => ?_
  obtain ⟨b, t, rfl⟩ := List.exists_cons_of_ne_nil hk
  exact List.nil_lt_cons b t

end Results

/-- An appender is made from the properties under its own name. -/
lemma instantiateAppender_own {props' : Properties} {n : List UInt8}
    (hself : props'[appenderPrefix n]? = props[appenderPrefix n]?)
    (hown : ∀ rest, props'[appenderPrefix n ++ 46 :: rest]? =
      props[appenderPrefix n ++ 46 :: rest]?) :
    instantiateAppender props' n = instantiateAppender props n := by
  have hkey : ∀ word, word.head? = some 46 →
      props'[appenderPrefix n ++ word]? = props[appenderPrefix n ++ word]? := by
    intro word hword
    obtain ⟨rest, rfl⟩ := List.head?_eq_some_iff.mp hword
    exact hown rest
  have hstring : ∀ word defaultValue, word.head? = some 46 →
      getString props' (appenderPrefix n ++ word) defaultValue =
        getString props (appenderPrefix n ++ word) defaultValue := by
    intro word defaultValue hword
    rw [getString, hkey word hword, getString]
  have hkind : ∀ appenderType, makeKind props' n appenderType = makeKind props n appenderType := by
    intro appenderType
    unfold makeKind
    dsimp only
    rw [hstring (utf8 ".target") _ (by decide)]
    simp (disch := decide) only [getBool, getInt, hkey, hstring]
  have hlayout : setLayout props' n = setLayout props n := by
    simp (disch := decide) only [setLayout, hkey]
  have hthreshold : readThreshold props' n = readThreshold props n := by
    unfold readThreshold
    rw [hstring (utf8 ".threshold") _ (by decide)]
  simp only [instantiateAppender, hself, hkind, hlayout, hthreshold]

/-- The names of the appenders that are defined, and what the loop leaves of them. -/
lemma instantiateAllAppenders_registered (h : instantiateAllAppenders props a = .ok a') :
    ∃ names, (∀ n, n ∈ names ↔ Defined props n) ∧
      Registered (instantiateAppender props) names a a' := by
  unfold instantiateAllAppenders at h
  rw [keys_eq] at h
  obtain ⟨names, hscan, -⟩ := instantiateLoop_ok_iff.mp ⟨a', h⟩
  obtain ⟨-, rfl⟩ := scan_eq_ok_iff.mp hscan
  have hnodup : ((suffixes props (utf8 "appender")).filter fun k => upTo 46 k = k ∧ k ≠ []).Nodup :=
    ((sorted_suffixes props _).imp ne_of_irrefl).filter _
  exact ⟨_, fun n => mem_names_iff, instantiateLoop_registered h hscan hnodup⟩

/-- The appenders of a file are made exactly if each of them can be made, the properties of
an appender have the appender's own key, and no name of an appender continues another one
that has properties with a byte smaller than the dot. Then exactly one appender is made for
each name that the file defines, and it is the one that the categories get under this name.
What is made of a name depends on the properties of the name alone. -/
theorem appenders_instantiated (props : Properties) (a : Appenders) :
    ((∃ a', instantiateAllAppenders props a = .ok a') ↔
      (∀ n, Defined props n → ∃ x, instantiateAppender props n = .ok x) ∧
      ∀ n rest, 46 ∉ n → appenderPrefix (n ++ 46 :: rest) ∈ props →
        (n = [] ∨ Defined props n) ∧ ∀ b m, b < 46 → ¬ Defined props (n ++ b :: m)) ∧
    (∀ a', instantiateAllAppenders props a = .ok a' →
      a.made <+: a'.made ∧
      (∀ n, ¬ Defined props n → a'.allAppenders n = a.allAppenders n) ∧
      (∀ n, Defined props n → ∃ i x, a'.allAppenders n = some i ∧ a.made.length ≤ i ∧
        a'.made[i]? = some x ∧ instantiateAppender props n = .ok x) ∧
      ∀ i x, a.made.length ≤ i → a'.made[i]? = some x →
        ∃ n, Defined props n ∧ a'.allAppenders n = some i ∧
          instantiateAppender props n = .ok x) ∧
    ∀ props' n, props'[appenderPrefix n]? = props[appenderPrefix n]? →
      (∀ rest, props'[appenderPrefix n ++ 46 :: rest]? =
        props[appenderPrefix n ++ 46 :: rest]?) →
      instantiateAppender props' n = instantiateAppender props n := by
  refine ⟨?_, ?_, ?_⟩
  · unfold instantiateAllAppenders
    rw [keys_eq, instantiateLoop_ok_iff, ← grouped_iff]
    constructor
    · rintro ⟨names, hscan, hmake⟩
      obtain ⟨hgrouped, rfl⟩ := scan_eq_ok_iff.mp hscan
      exact ⟨fun n hn => hmake n (mem_names_iff.mpr hn), hgrouped⟩
    · rintro ⟨hmake, hgrouped⟩
      exact ⟨_, scan_eq_ok_iff.mpr ⟨hgrouped, rfl⟩, fun n hn => hmake n (mem_names_iff.mp hn)⟩
  · intro a' hloop
    obtain ⟨names, hmem, hregistered⟩ := instantiateAllAppenders_registered hloop
    refine ⟨hregistered.kept, ?_, ?_, ?_⟩
    · intro n hn
      exact hregistered.other n (mt (hmem n).mp hn)
    · intro n hn
      exact hregistered.mine n ((hmem n).mpr hn)
    · intro i x hi hx
      obtain ⟨n, hn, hrest⟩ := hregistered.only i x hi hx
      exact ⟨n, (hmem n).mp hn, hrest⟩
  · intro props' n hself hown
    exact instantiateAppender_own hself hown

end ShareBike.Configurator
