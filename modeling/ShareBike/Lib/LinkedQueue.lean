import Mathlib.Data.List.Nodup
import Mathlib.Logic.Function.Basic

/-!
# Linked queues with a tail pointer

The elements carry their own `next` field. The tail pointer is the address of
the field that the next insertion has to write: `first` while the queue is
empty, and the `next` field of the last element otherwise. `Represents q l` says
that the fields spell out the list `l`; insertion and removal then are the ones
of lists.
-/
namespace ShareBike.Lib

/-- The address of a field that holds a pointer to an element. -/
inductive Link (τ : Type*)
  | first
  | next (t : τ)
  deriving DecidableEq

/-- The two pointers of the queue, and the `next` fields of all elements. -/
structure LinkedQueue (τ : Type*) where
  first : Option τ
  last : Link τ
  next : τ → Option τ

namespace LinkedQueue

variable {τ : Type*}

def empty (next : τ → Option τ) : LinkedQueue τ := ⟨none, .first, next⟩

/-- `first = t->next`, and the tail pointer goes back to `first` if that was the
last element. -/
def pop (q : LinkedQueue τ) (t : τ) : LinkedQueue τ :=
  { q with first := q.next t, last := if q.next t = none then .first else q.last }

/-- Following the `next` fields from a pointer visits the elements of a list. -/
def Chain (next : τ → Option τ) : Option τ → List τ → Prop
  | p, [] => p = none
  | p, t :: ts => p = some t ∧ Chain next (next t) ts

/-- Where the tail pointer of a queue with these elements points. -/
def lastLink (l : List τ) : Link τ := l.getLast?.elim .first .next

structure Represents (q : LinkedQueue τ) (l : List τ) : Prop where
  chain : Chain q.next q.first l
  last : q.last = lastLink l

variable {q : LinkedQueue τ} {t : τ} {l : List τ}

@[simp] lemma lastLink_append (l : List τ) (t : τ) : lastLink (l ++ [t]) = .next t := by
  simp [lastLink]

/-- A chain depends on the fields of its own elements only. -/
lemma Chain.congr {next next' : τ → Option τ} {p : Option τ} (h : Chain next p l)
    (he : ∀ t ∈ l, next' t = next t) : Chain next' p l := by
  induction l generalizing p with
  | nil => exact h
  | cons t ts ih =>
    refine ⟨h.1, ?_⟩
    rw [he t List.mem_cons_self]
    exact ih h.2 fun u hu => he u (List.mem_cons_of_mem _ hu)

/-- The fields spell out one list only. -/
lemma Chain.unique {next : τ → Option τ} {p : Option τ} {l' : List τ} (h : Chain next p l)
    (h' : Chain next p l') : l = l' := by
  induction l generalizing p l' with
  | nil =>
    cases l' with
    | nil => rfl
    | cons u us => exact absurd (h.symm.trans h'.1) (by simp)
  | cons t ts ih =>
    cases l' with
    | nil => exact absurd (h'.symm.trans h.1) (by simp)
    | cons u us =>
      obtain rfl : t = u := Option.some.inj (h.1.symm.trans h'.1)
      rw [ih h.2 h'.2]

lemma represents_empty (next : τ → Option τ) : Represents (empty next) [] := ⟨rfl, rfl⟩

lemma Represents.first (h : q.Represents l) : q.first = l.head? := by
  cases l with
  | nil => exact h.chain
  | cons t ts => exact h.chain.1

lemma Represents.unique {l' : List τ} (h : q.Represents l) (h' : q.Represents l') : l = l' :=
  h.chain.unique h'.chain

lemma Represents.pop (h : q.Represents (t :: l)) : (q.pop t).Represents l := by
  obtain ⟨-, hchain⟩ := h.chain
  refine ⟨hchain, ?_⟩
  cases l with
  | nil =>
    have hnext : q.next t = none := hchain
    simp [LinkedQueue.pop, hnext, lastLink]
  | cons u us =>
    have hnext : q.next t ≠ none := by simp [hchain.1]
    have hlast := h.last
    simp only [LinkedQueue.pop, hnext, if_false, hlast, lastLink, List.getLast?_cons_cons]

variable [DecidableEq τ]

/-- `t->next = v`. -/
def setNext (q : LinkedQueue τ) (t : τ) (v : Option τ) : LinkedQueue τ :=
  { q with next := Function.update q.next t v }

/-- `*link = v`. -/
def store (q : LinkedQueue τ) (link : Link τ) (v : Option τ) : LinkedQueue τ :=
  match link with
  | .first => { q with first := v }
  | .next t => q.setNext t v

/-- `*last = t; last = &t->next`. -/
def push (q : LinkedQueue τ) (t : τ) : LinkedQueue τ :=
  { q.store q.last (some t) with last := .next t }

@[simp] lemma setNext_first (v : Option τ) : (q.setNext t v).first = q.first := rfl

lemma setNext_next_self (v : Option τ) : (q.setNext t v).next t = v :=
  Function.update_self _ _ _

/-- Writing the field of the last element extends the chain. -/
lemma Chain.snoc {next : τ → Option τ} {p : Option τ} {u : τ} (h : Chain next p (l ++ [u]))
    (hnodup : (l ++ [u]).Nodup) (ht : t ∉ l ++ [u]) (hnext : next t = none) :
    Chain (Function.update next u (some t)) p (l ++ [u, t]) := by
  induction l generalizing p with
  | nil =>
    have hne : t ≠ u := by simpa using ht
    refine ⟨h.1, by simp, ?_⟩
    rw [Function.update_of_ne hne]
    exact hnext
  | cons v vs ih =>
    simp only [List.cons_append, List.nodup_cons, List.mem_cons, not_or] at hnodup ht
    have hne : v ≠ u := by
      rintro rfl
      exact hnodup.1 (by simp)
    refine ⟨h.1, ?_⟩
    rw [Function.update_of_ne hne]
    exact ih h.2 hnodup.2 ht.2

lemma Represents.setNext (h : q.Represents l) (ht : t ∉ l) (v : Option τ) :
    (q.setNext t v).Represents l := by
  refine ⟨h.chain.congr fun u hu => ?_, h.last⟩
  have hne : u ≠ t := fun he => ht (he ▸ hu)
  exact Function.update_of_ne hne _ _

lemma Represents.push (h : q.Represents l) (hnodup : l.Nodup) (ht : t ∉ l)
    (hnext : q.next t = none) : (q.push t).Represents (l ++ [t]) := by
  refine ⟨?_, (lastLink_append l t).symm⟩
  have hchain := h.chain
  rcases List.eq_nil_or_concat l with rfl | ⟨l, u, rfl⟩
  · have hlast : q.last = .first := h.last
    simp only [LinkedQueue.push, hlast, store]
    exact ⟨rfl, hnext⟩
  · have hlast : q.last = .next u := h.last.trans (by simp)
    simp only [LinkedQueue.push, hlast, store, List.concat_eq_append, List.append_assoc,
      List.singleton_append] at hchain hnodup ht ⊢
    exact hchain.snoc hnodup ht hnext

end LinkedQueue

end ShareBike.Lib
