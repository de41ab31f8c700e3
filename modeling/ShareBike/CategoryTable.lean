import ShareBike.Category

/-!
# The hierarchy is a table

What the categories do depends only on what was set for each name. A name for which
nothing was set takes part in the table as if its category were there, so that it does
not matter which categories were created, and in which order.
-/
namespace ShareBike.Hierarchy
open ShareBike.Lib

/-- What is set for a name. -/
structure Entry where
  priority : ℤ
  isAdditive : Bool
  appender : List ℕ

abbrev Table := Name → Entry

/-- What holds for a name before anything is set. -/
def Entry.initial (name : Name) : Entry := ⟨if name = [] then INFO else NOTSET, true, []⟩

/-- The priority of the nearest name that has one of its own. -/
def Table.effective (t : Table) (name : Name) : ℤ :=
  if name = [] ∨ (t name).priority < NOTSET then (t name).priority
  else Table.effective t (parentName name)
termination_by name.length
decreasing_by exact length_parentName_lt (not_or.mp ‹¬(_ ∨ _)›).1

/-- The appenders of a name, and those of its parents as far as the names are additive. -/
def Table.receivers (t : Table) (name : Name) : List ℕ :=
  (t name).appender ++
    if name = [] ∨ (t name).isAdditive = false then []
    else Table.receivers t (parentName name)
termination_by name.length
decreasing_by exact length_parentName_lt (not_or.mp ‹¬(_ ∨ _)›).1

/-- The specification: a table, and what the appenders got. -/
structure Spec where
  table : Table
  appender : ℕ → Appender
  received : List (ℕ × LoggingEvent)

namespace Spec

variable (t : Spec)

def set (name : Name) (f : Entry → Entry) : Spec :=
  { t with table := Function.update t.table name (f (t.table name)) }

def log (name : Name) (priority : ℤ) (message ndc : List UInt8) : Spec :=
  if t.table.effective name ≥ priority then { t with
    received := t.received ++
      deliver t.appender ⟨name, message, ndc, priority⟩ (t.table.receivers name) }
  else t

/-- Creating a category does nothing, and the priority `NOTSET` is not set for the root. -/
def step : Act → Spec
  | .getInstance _ => t
  | .setPriority name priority => t.set name fun e =>
    if priority < NOTSET ∨ name ≠ [] then { e with priority := priority } else e
  | .setAdditivity name additivity => t.set name fun e => { e with isAdditive := additivity }
  | .addAppender name appender => t.set name fun e =>
    { e with appender := insertAppender e.appender appender }
  | .removeAppender name appender => t.set name fun e =>
    { e with appender := e.appender.filter (· ≠ appender) }
  | .removeAllAppenders name => t.set name fun e => { e with appender := [] }
  | .setThreshold appender priority => { t with
      appender := Function.update t.appender appender
        { t.appender appender with threshold := priority } }
  | .log name priority message ndc => t.log name priority message ndc

end Spec

def Spec.start (appender : ℕ → Appender) : Spec := ⟨Entry.initial, appender, []⟩

variable {m : CategoryMap} {name n : Name} {c : Category}

/-- The parents of the categories are there, and the root has a priority. -/
structure WellFormed (m : CategoryMap) : Prop where
  root : ∀ c, m [] = some c → c.parent = none ∧ c.priority < NOTSET
  parent : ∀ n c, n ≠ [] → m n = some c →
    c.parent = some (parentName n) ∧ m (parentName n) ≠ none

def Category.entry (c : Category) : Entry := ⟨c.priority, c.isAdditive, c.appender⟩

/-- The table that the categories stand for. -/
def table (m : CategoryMap) : Table := fun n =>
  match m n with
  | some c => c.entry
  | none => .initial n

lemma table_some (h : m n = some c) : table m n = c.entry := by
  rw [table, h]

lemma table_update (m : CategoryMap) (n : Name) (c : Category) :
    table (Function.update m n (some c)) = Function.update (table m) n c.entry := by
  funext k
  by_cases hk : k = n
  · subst hk
    rw [table, Function.update_self, Function.update_self]
  · rw [table, Function.update_of_ne hk, Function.update_of_ne hk]
    rfl

section GetInstance

lemma getInstance_some (h : m name = some c) : getInstance m name = m := by
  rw [getInstance, h]

lemma getInstance_root (h : m [] = none) :
    getInstance m [] = Function.update m [] (some (.new none INFO)) := by
  rw [getInstance, h]
  rfl

lemma getInstance_none (h : m name = none) (hne : name ≠ []) : getInstance m name =
    Function.update (getInstance m (parentName name)) name
      (some (.new (some (parentName name)) NOTSET)) := by
  rw [getInstance, h]
  exact if_neg hne

/-- What `getInstance` does to a map: it adds categories, with nothing set. -/
structure Adds (m m' : CategoryMap) (name : Name) : Prop where
  wellFormed : WellFormed m'
  exists_self : m' name ≠ none
  keeps : ∀ n, m n ≠ none → m' n = m n
  longer : ∀ n, name.length < n.length → m' n = m n
  table : Hierarchy.table m' = Hierarchy.table m

lemma WellFormed.getInstance (h : WellFormed m) (name : Name) :
    Adds m (getInstance m name) name := by
  induction hlen : name.length using Nat.strong_induction_on generalizing name with
  | _ len ih =>
    cases hm : m name with
    | some c =>
      rw [getInstance_some hm]
      exact ⟨h, by simp [hm], fun _ _ => rfl, fun _ _ => rfl, rfl⟩
    | none =>
      by_cases hname : name = []
      · subst hname
        rw [getInstance_root hm]
        refine ⟨⟨?_, ?_⟩, by simp, ?_, ?_, ?_⟩
        · intro c hc
          rw [Function.update_self] at hc
          cases hc
          exact ⟨rfl, by decide⟩
        · intro n c hn hc
          rw [Function.update_of_ne hn] at hc
          have hp := h.parent n c hn hc
          refine ⟨hp.1, ?_⟩
          by_cases hroot : parentName n = []
          · rw [hroot, Function.update_self]
            exact Option.some_ne_none _
          · rw [Function.update_of_ne hroot]
            exact hp.2
        · intro n hn
          have he : n ≠ [] := fun he => hn (by rw [he, hm])
          exact Function.update_of_ne he ..
        · intro n hn
          exact Function.update_of_ne (List.length_pos_iff.mp hn) ..
        · rw [table_update]
          exact Function.update_eq_self_iff.mpr (by rw [table, hm]; rfl)
      · rw [getInstance_none hm hname]
        have hshort := length_parentName_lt hname
        have hparent := ih _ (hlen ▸ hshort) (parentName name) rfl
        have hnone : Hierarchy.getInstance m (parentName name) name = none :=
          (hparent.longer name hshort).trans hm
        refine ⟨⟨?_, ?_⟩, by simp, ?_, ?_, ?_⟩
        · intro c hc
          rw [Function.update_of_ne (Ne.symm hname)] at hc
          exact hparent.wellFormed.root c hc
        · intro n c hn hc
          by_cases he : n = name
          · subst he
            rw [Function.update_self] at hc
            cases hc
            refine ⟨rfl, ?_⟩
            rw [Function.update_of_ne fun he => by rw [he] at hshort; omega]
            exact hparent.exists_self
          · rw [Function.update_of_ne he] at hc
            have hp := hparent.wellFormed.parent n c hn hc
            refine ⟨hp.1, ?_⟩
            by_cases hself : parentName n = name
            · rw [hself, Function.update_self]
              exact Option.some_ne_none _
            · rw [Function.update_of_ne hself]
              exact hp.2
        · intro n hn
          have he : n ≠ name := fun he => hn (by rw [he, hm])
          rw [Function.update_of_ne he]
          exact hparent.keeps n hn
        · intro n hn
          rw [Function.update_of_ne fun he => by rw [he] at hn; omega]
          exact hparent.longer n (by omega)
        · rw [table_update, hparent.table]
          refine Function.update_eq_self_iff.mpr ?_
          rw [table, hm]
          simp [Category.entry, Category.new, Entry.initial, hname]

end GetInstance

section Loops

variable {k : ℕ}

/-- The loop ends at the nearest priority, and it does not follow a null pointer. -/
lemma WellFormed.getChainedPriority (h : WellFormed m) (hname : m name ≠ none)
    (hk : name.length < k) :
    getChainedPriority m k (some name) = .done ((table m).effective name) := by
  induction k generalizing name with
  | zero => exact absurd hk (Nat.not_lt_zero _)
  | succ k ih =>
    obtain ⟨c, hc⟩ := Option.ne_none_iff_exists'.mp hname
    have hentry : (table m name).priority = c.priority := by rw [table_some hc]; rfl
    simp only [Hierarchy.getChainedPriority, hc]
    rw [Table.effective, hentry]
    by_cases hroot : name = []
    · subst hroot
      have hlt := (h.root c hc).2
      rw [if_neg (by omega), if_pos (.inl rfl)]
    · have hp := h.parent name c hroot hc
      have hshort := length_parentName_lt hroot
      by_cases hset : c.priority < NOTSET
      · rw [if_neg (by omega), if_pos (.inr hset)]
      · rw [if_pos (by omega), if_neg (not_or.mpr ⟨hroot, hset⟩), hp.1]
        exact ih hp.2 (by omega)

lemma WellFormed.callAppenders (h : WellFormed m) (hname : m name ≠ none)
    (hk : name.length < k) :
    callAppenders m k name = .done ((table m).receivers name) := by
  induction k generalizing name with
  | zero => exact absurd hk (Nat.not_lt_zero _)
  | succ k ih =>
    obtain ⟨c, hc⟩ := Option.ne_none_iff_exists'.mp hname
    have hentry : table m name = c.entry := table_some hc
    simp only [Hierarchy.callAppenders, hc]
    rw [Table.receivers, hentry]
    by_cases hroot : name = []
    · subst hroot
      rw [(h.root c hc).1, if_pos (.inl rfl), List.append_nil]
      cases c.isAdditive <;> rfl
    · have hp := h.parent name c hroot hc
      have hshort := length_parentName_lt hroot
      cases hadd : c.isAdditive with
      | false =>
        have hstop : c.entry.isAdditive = false := hadd
        rw [if_pos (.inr hstop), List.append_nil]
        rfl
      | true =>
        have hgo : ¬ (name = [] ∨ c.entry.isAdditive = false) := by
          simp [hroot, Category.entry, hadd]
        rw [if_neg hgo, hp.1]
        dsimp only
        rw [ih hp.2 (by omega)]
        rfl

end Loops

/-- A category that keeps its parent, and a root that keeps a priority. -/
lemma WellFormed.update (h : WellFormed m) (hc : m name = some c) {c' : Category}
    (hparent : c'.parent = c.parent)
    (hroot : c.parent = none → c.priority < NOTSET → c'.priority < NOTSET) :
    WellFormed (Function.update m name (some c')) := by
  have hsome : ∀ k, m k ≠ none → Function.update m name (some c') k ≠ none := by
    intro k hk
    by_cases he : k = name
    · rw [he, Function.update_self]
      exact Option.some_ne_none _
    · rwa [Function.update_of_ne he]
  refine ⟨fun d hd => ?_, fun n d hn hd => ?_⟩
  · by_cases he : name = []
    · subst he
      rw [Function.update_self] at hd
      cases hd
      have hold := h.root c hc
      exact ⟨hparent.trans hold.1, hroot hold.1 hold.2⟩
    · rw [Function.update_of_ne (Ne.symm he)] at hd
      exact h.root d hd
  · by_cases he : n = name
    · subst he
      rw [Function.update_self] at hd
      cases hd
      have hold := h.parent n c hn hc
      exact ⟨hparent.trans hold.1, hsome _ hold.2⟩
    · rw [Function.update_of_ne he] at hd
      have hold := h.parent n d hn hd
      exact ⟨hold.1, hsome _ hold.2⟩

/-- The specification's state that a state stands for. -/
def State.abs (s : State) : Spec := ⟨table s.categoryMap, s.appender, s.received⟩

variable {s s' : State}

lemma WellFormed.on (h : WellFormed s.categoryMap) {f : Category → Category} {g : Entry → Entry}
    (hs : s.on name f = some s') (hparent : ∀ c, (f c).parent = c.parent)
    (hroot : ∀ c, c.parent = none → c.priority < NOTSET → (f c).priority < NOTSET)
    (hentry : ∀ c, s.categoryMap name = some c → (f c).entry = g c.entry) :
    WellFormed s'.categoryMap ∧ s'.abs = s.abs.set name g := by
  obtain ⟨c, hc, rfl⟩ := Option.map_eq_some_iff.mp hs
  refine ⟨h.update hc (hparent c) (hroot c), ?_⟩
  simp only [State.abs, Spec.set, table_update, hentry c hc, table_some hc]

/-- The step lemma: each call does to the table what the specification says. -/
lemma WellFormed.step (h : WellFormed s.categoryMap) {a : Act} (hs : step s a = some s') :
    WellFormed s'.categoryMap ∧ s'.abs = s.abs.step a := by
  cases a with
  | getInstance name =>
    cases hs
    have hadds := h.getInstance name
    exact ⟨hadds.wellFormed, by simp only [State.abs, Spec.step, hadds.table]⟩
  | setPriority name priority =>
    refine h.on (g := fun e =>
      if priority < NOTSET ∨ name ≠ [] then { e with priority := priority } else e) hs ?_ ?_ ?_
    · intro c
      simp only [Category.setPriority]
      split_ifs <;> rfl
    · intro c hroot hc
      simp only [Category.setPriority]
      split_ifs with hset
      · exact hset.resolve_right fun hne => hne hroot
      · exact hc
    · intro c hc
      have hiff : c.parent ≠ none ↔ name ≠ [] := by
        constructor
        · rintro hne rfl
          exact hne (h.root c hc).1
        · intro hne
          rw [(h.parent name c hne hc).1]
          exact Option.some_ne_none _
      dsimp only [Category.setPriority, Category.entry]
      by_cases hset : priority < NOTSET ∨ name ≠ []
      · rw [if_pos hset, if_pos (hset.imp_right hiff.mpr)]
      · rw [if_neg hset, if_neg fun hor => hset (hor.imp_right hiff.mp)]
  | setAdditivity name additivity =>
    exact h.on (g := fun e => { e with isAdditive := additivity }) hs
      (fun _ => rfl) (fun _ _ hc => hc) fun _ _ => rfl
  | addAppender name appender =>
    exact h.on (g := fun e => { e with appender := insertAppender e.appender appender }) hs
      (fun _ => rfl) (fun _ _ hc => hc) fun _ _ => rfl
  | removeAppender name appender =>
    exact h.on (g := fun e => { e with appender := e.appender.filter (· ≠ appender) }) hs
      (fun _ => rfl) (fun _ _ hc => hc) fun _ _ => rfl
  | removeAllAppenders name =>
    exact h.on (g := fun e => { e with appender := [] }) hs
      (fun _ => rfl) (fun _ _ hc => hc) fun _ _ => rfl
  | setThreshold appender priority =>
    cases hs
    exact ⟨h, rfl⟩
  | log name priority message ndc =>
    simp only [Hierarchy.step, State.log] at hs
    by_cases hname : s.categoryMap name = none
    · simp [Hierarchy.getChainedPriority, hname] at hs
    · rw [h.getChainedPriority hname (Nat.lt_succ_self _)] at hs
      dsimp only at hs
      simp only [Spec.step, Spec.log]
      split_ifs at hs with henabled
      · rw [h.callAppenders hname (Nat.lt_succ_self _)] at hs
        cases hs
        exact ⟨h, (if_pos henabled).symm⟩
      · cases hs
        exact ⟨h, (if_neg henabled).symm⟩

/-- After every run of calls, the categories stand for the table that the specification
has after the same calls, every appender got what the specification says, and for each
category that exists both loops along the parents end, with the priority and with the
appenders that the table gives. -/
theorem hierarchy_refines_table (appender : ℕ → Appender) (as : List Act) {s : State}
    (hrun : (system appender).exec (start appender) as = some s) :
    s.abs = as.foldl Spec.step (.start appender) ∧
    ∀ name, s.categoryMap name ≠ none → ∀ k, name.length < k →
      getChainedPriority s.categoryMap k (some name) = .done (s.abs.table.effective name) ∧
      callAppenders s.categoryMap k name = .done (s.abs.table.receivers name) := by
  have hrun' : ∀ (as : List Act) (t : State), WellFormed t.categoryMap →
      (system appender).exec t as = some s →
      WellFormed s.categoryMap ∧ s.abs = as.foldl Spec.step t.abs := by
    intro as
    induction as with
    | nil =>
      rintro t ht hexec
      cases hexec
      exact ⟨ht, rfl⟩
    | cons a as ih =>
      rintro t ht hexec
      obtain ⟨t', ha, hrest⟩ := System.exec_cons.mp hexec
      have hstep := ht.step ha
      have hlast := ih t' hstep.1 hrest
      exact ⟨hlast.1, by rw [List.foldl_cons, ← hstep.2]; exact hlast.2⟩
  have hstart : WellFormed (start appender).categoryMap := ⟨by simp [start], by simp [start]⟩
  obtain ⟨hwf, habs⟩ := hrun' as (start appender) hstart hrun
  exact ⟨habs, fun name hname k hk =>
    ⟨hwf.getChainedPriority hname hk, hwf.callAppenders hname hk⟩⟩

/-- Appenders that take every event. -/
def plain : ℕ → Appender := fun _ => ⟨NOTSET, []⟩

/-- The category `a.b` is created first, and `a` is set later on. -/
def abCalls : List Act :=
  [.getInstance [97, 46, 98], .addAppender [] 1, .addAppender [97] 2, .setPriority [] NOTSET,
    .log [97, 46, 98] 700 [1] [], .setPriority [97] 700, .log [97, 46, 98] 700 [2] []]

def abEvent : LoggingEvent := ⟨[97, 46, 98], [2], [], 700⟩

/-- Only the second message is let through, to the appenders of `a` and of the root. -/
theorem hierarchy_refines_table_ab :
    ∃ s, (system plain).exec (start plain) abCalls = some s ∧
      s.abs = abCalls.foldl Spec.step (.start plain) ∧
      s.received = [(2, abEvent), (1, abEvent)] := by
  have hrun : ((system plain).exec (start plain) abCalls).map State.received =
      some [(2, abEvent), (1, abEvent)] := by decide +kernel
  obtain ⟨s, hs, hreceived⟩ := Option.map_eq_some_iff.mp hrun
  exact ⟨s, hs, (hierarchy_refines_table plain abCalls hs).1, hreceived⟩

end ShareBike.Hierarchy
