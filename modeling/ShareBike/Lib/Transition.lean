import Mathlib.Data.List.Basic
import Mathlib.Tactic.Basic

/-!
# Labelled transition systems with a partial step function

A system is a set of initial states and a step function. A label carries every
choice that the environment makes in that step; `step s a = none` says that the
environment cannot make the choice `a` in the state `s`. Runs are indexed by a
condition `ok` on the state before a step and its label, so that a property may
be stated for all runs or for those runs whose steps all satisfy a condition.
-/
namespace ShareBike.Lib

structure System (σ α : Type*) where
  init : σ → Prop
  step : σ → α → Option σ

namespace System

variable {σ α : Type*}

/-- The states of all runs whose steps satisfy `ok`. -/
inductive Reach (S : System σ α) (ok : σ → α → Prop) : σ → Prop
  | init {s : σ} : S.init s → Reach S ok s
  | step {s s' : σ} {a : α} : Reach S ok s → ok s a → S.step s a = some s' → Reach S ok s'

/-- The states of all runs. -/
abbrev Reachable (S : System σ α) : σ → Prop := S.Reach fun _ _ => True

/-- The run of a given list of labels. -/
def exec (S : System σ α) : σ → List α → Option σ
  | s, [] => some s
  | s, a :: as => (S.step s a).bind fun s' => S.exec s' as

variable {S : System σ α} {ok ok' : σ → α → Prop} {I : σ → Prop}

/-- The invariant rule: a property of the initial states that every allowed
step preserves holds in every state reached. -/
theorem Reach.invariant (hinit : ∀ s, S.init s → I s)
    (hstep : ∀ s a s', I s → ok s a → S.step s a = some s' → I s') {s : σ}
    (h : S.Reach ok s) : I s := by
  induction h with
  | init hs => exact hinit _ hs
  | step _ hok hs ih => exact hstep _ _ _ ih hok hs

/-- The invariant rule relative to an invariant that is already established. -/
theorem Reach.invariant_under {J : σ → Prop} (hJ : ∀ s, S.Reach ok s → J s)
    (hinit : ∀ s, S.init s → I s)
    (hstep : ∀ s a s', J s → I s → ok s a → S.step s a = some s' → I s') {s : σ}
    (h : S.Reach ok s) : I s := by
  induction h with
  | init hs => exact hinit _ hs
  | step hr hok hs ih => exact hstep _ _ _ (hJ _ hr) ih hok hs

theorem Reach.mono (hok : ∀ s a, ok s a → ok' s a) {s : σ} (h : S.Reach ok s) :
    S.Reach ok' s := by
  induction h with
  | init hs => exact .init hs
  | step _ ha hs ih => exact .step ih (hok _ _ ha) hs

theorem Reach.reachable {s : σ} (h : S.Reach ok s) : S.Reachable s :=
  h.mono fun _ _ _ => trivial

@[simp] theorem exec_nil (s : σ) : S.exec s [] = some s := rfl

theorem exec_cons {s t : σ} {a : α} {as : List α} :
    S.exec s (a :: as) = some t ↔ ∃ s', S.step s a = some s' ∧ S.exec s' as = some t := by
  simp [exec, Option.bind_eq_some_iff]

theorem exec_append {s t : σ} {as bs : List α} :
    S.exec s (as ++ bs) = some t ↔ ∃ u, S.exec s as = some u ∧ S.exec u bs = some t := by
  induction as generalizing s with
  | nil => simp
  | cons a as ih =>
    simp only [List.cons_append, exec_cons, ih]
    constructor
    · rintro ⟨s', hs, u, hu, ht⟩
      exact ⟨u, ⟨s', hs, hu⟩, ht⟩
    · rintro ⟨u, ⟨s', hs, hu⟩, ht⟩
      exact ⟨s', hs, u, hu, ht⟩

/-- A run from a reached state, with labels that always meet the condition,
ends in a reached state. -/
theorem Reach.exec {s t : σ} {as : List α} (h : S.Reach ok s) (hok : ∀ s, ∀ a ∈ as, ok s a)
    (he : S.exec s as = some t) : S.Reach ok t := by
  induction as generalizing s with
  | nil => cases he; exact h
  | cons a as ih =>
    obtain ⟨s', hs, he'⟩ := exec_cons.mp he
    exact ih (.step h (hok s a (by simp)) hs) (fun s b hb => hok s b (by simp [hb])) he'

/-- The system that refuses the steps that do not meet the condition. -/
def guard (S : System σ α) (ok : σ → α → Prop) [∀ s a, Decidable (ok s a)] : System σ α where
  init := S.init
  step s a := if ok s a then S.step s a else none

/-- Executing the guarded system checks the condition at every step. -/
theorem Reach.exec_guard [∀ s a, Decidable (ok s a)] {s t : σ} {as : List α}
    (h : S.Reach ok s) (he : (S.guard ok).exec s as = some t) : S.Reach ok t := by
  induction as generalizing s with
  | nil => cases he; exact h
  | cons a as ih =>
    obtain ⟨s', hs, he'⟩ := exec_cons.mp he
    simp only [guard] at hs
    split_ifs at hs with hok
    exact ih (.step h hok hs) he'

/-- The guarded system has no runs of its own. -/
theorem exec_of_guard [∀ s a, Decidable (ok s a)] {s t : σ} {as : List α}
    (he : (S.guard ok).exec s as = some t) : S.exec s as = some t := by
  induction as generalizing s with
  | nil => exact he
  | cons a as ih =>
    obtain ⟨s', hs, he'⟩ := exec_cons.mp he
    simp only [guard] at hs
    split_ifs at hs
    exact exec_cons.mpr ⟨s', hs, ih he'⟩

/-- A property that every step preserves survives every run. -/
theorem exec_invariant (hstep : ∀ s a s', I s → S.step s a = some s' → I s') {s t : σ}
    {as : List α} (hs : I s) (he : S.exec s as = some t) : I t := by
  induction as generalizing s with
  | nil => cases he; exact hs
  | cons a as ih =>
    obtain ⟨s', ha, he'⟩ := exec_cons.mp he
    exact ih (hstep _ _ _ hs ha) he'

/-- Every state of the run of `as` from `s` satisfies `P`. -/
def Throughout (S : System σ α) (P : σ → Prop) : σ → List α → Prop
  | s, [] => P s
  | s, a :: as => P s ∧ ∀ s', S.step s a = some s' → S.Throughout P s' as

/-- Every step of the run of `as` from `s` satisfies `ok`. -/
def Along (S : System σ α) (ok : σ → α → Prop) : σ → List α → Prop
  | _, [] => True
  | s, a :: as => ∀ s', S.step s a = some s' → ok s a ∧ S.Along ok s' as

theorem Throughout.of_exec {P : σ → Prop} {s t : σ} {as : List α} (h : S.Throughout P s as)
    (he : S.exec s as = some t) : P t := by
  induction as generalizing s with
  | nil => cases he; exact h
  | cons a as ih =>
    obtain ⟨s', ha, he'⟩ := exec_cons.mp he
    exact ih (h.2 s' ha) he'

/-- Exactness of a condition: if the condition keeps an invariant that implies
`P`, and a step that breaks the condition leads out of `P`, then `P` holds in
every state of a run if and only if every step of the run meets the condition. -/
theorem throughout_iff_along {P : σ → Prop} (hP : ∀ s, I s → P s)
    (hkeep : ∀ s a s', I s → ok s a → S.step s a = some s' → I s')
    (hbreak : ∀ s a s', I s → ¬ ok s a → S.step s a = some s' → ¬ P s') {s : σ} (hs : I s)
    (as : List α) : S.Throughout P s as ↔ S.Along ok s as := by
  induction as generalizing s with
  | nil => exact ⟨fun _ => trivial, fun _ => hP s hs⟩
  | cons a as ih =>
    constructor
    · rintro ⟨-, h⟩ s' hstep
      have hok : ok s a := by
        by_contra hn
        have hhead : S.Throughout P s' as := h s' hstep
        refine hbreak s a s' hs hn hstep ?_
        cases as with
        | nil => exact hhead
        | cons b bs => exact hhead.1
      exact ⟨hok, (ih (hkeep s a s' hs hok hstep)).mp (h s' hstep)⟩
    · intro h
      refine ⟨hP s hs, fun s' hstep => ?_⟩
      obtain ⟨hok, hrest⟩ := h s' hstep
      exact (ih (hkeep s a s' hs hok hstep)).mpr hrest

/-- The same at the end of a run, for a property that is lost for good: a step that breaks
the condition does damage `D`, which no later step repairs. -/
theorem exec_iff_along {P D : σ → Prop} (hP : ∀ s, I s → P s) (hD : ∀ s, D s → ¬ P s)
    (hkeep : ∀ s a s', I s → ok s a → S.step s a = some s' → I s')
    (hbreak : ∀ s a s', I s → ¬ ok s a → S.step s a = some s' → D s')
    (hstay : ∀ s a s', D s → S.step s a = some s' → D s') {s t : σ} {as : List α} (hs : I s)
    (he : S.exec s as = some t) : P t ↔ S.Along ok s as := by
  induction as generalizing s with
  | nil =>
    cases he
    exact iff_of_true (hP _ hs) trivial
  | cons a as ih =>
    obtain ⟨s', ha, he'⟩ := exec_cons.mp he
    by_cases hok : ok s a
    · rw [ih (hkeep s a s' hs hok ha) he']
      constructor
      · intro h s'' ha'
        obtain rfl : s' = s'' := Option.some.inj (ha.symm.trans ha')
        exact ⟨hok, h⟩
      · exact fun h => (h s' ha).2
    · have hdamaged : D t := exec_invariant hstay (hbreak s a s' hs hok ha) he'
      exact iff_of_false (hD t hdamaged) fun h => hok (h s' ha).1

/-- The same for a property of the states together with one of the steps, where the
condition is exactly what the property of a step needs. -/
theorem throughout_and_along_iff {P : σ → Prop} (hP : ∀ s, I s → P s)
    (hkeep : ∀ s a s', I s → ok s a → S.step s a = some s' → I s')
    (hiff : ∀ s a, I s → (ok' s a ↔ ok s a)) {s : σ} (hs : I s) (as : List α) :
    S.Throughout P s as ∧ S.Along ok' s as ↔ S.Along ok s as := by
  induction as generalizing s with
  | nil => exact ⟨fun _ => trivial, fun _ => ⟨hP s hs, trivial⟩⟩
  | cons a as ih =>
    constructor
    · rintro ⟨⟨-, hrest⟩, halong⟩ s' hstep
      obtain ⟨hstepOk, halong'⟩ := halong s' hstep
      have hok : ok s a := (hiff s a hs).mp hstepOk
      exact ⟨hok, (ih (hkeep s a s' hs hok hstep)).mp ⟨hrest s' hstep, halong'⟩⟩
    · intro h
      have hnext : ∀ s', S.step s a = some s' →
          S.Throughout P s' as ∧ S.Along ok' s' as := by
        intro s' hstep
        obtain ⟨hok, hrest⟩ := h s' hstep
        exact (ih (hkeep s a s' hs hok hstep)).mpr hrest
      refine ⟨⟨hP s hs, fun s' hstep => (hnext s' hstep).1⟩, fun s' hstep => ?_⟩
      exact ⟨(hiff s a hs).mpr (h s' hstep).1, (hnext s' hstep).2⟩

/-- The system together with a history that records its steps. -/
def withHistory {η : Type*} (S : System σ α) (h₀ : η) (record : σ → α → η → η) :
    System (σ × η) α where
  init p := S.init p.1 ∧ p.2 = h₀
  step p a := (S.step p.1 a).map fun s' => (s', record p.1 a p.2)

section History

variable {η : Type*} {h₀ : η} {record : σ → α → η → η}

lemma withHistory_step {p q : σ × η} {a : α} :
    (S.withHistory h₀ record).step p a = some q ↔
      S.step p.1 a = some q.1 ∧ q.2 = record p.1 a p.2 := by
  obtain ⟨s, h⟩ := q
  simp only [withHistory, Option.map_eq_some_iff, Prod.mk.injEq]
  constructor
  · rintro ⟨s', hs, rfl, rfl⟩
    exact ⟨hs, rfl⟩
  · rintro ⟨hs, rfl⟩
    exact ⟨s, hs, rfl, rfl⟩

end History

end System

end ShareBike.Lib
