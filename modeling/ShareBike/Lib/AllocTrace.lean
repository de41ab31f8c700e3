import ShareBike.Lib.Words
import Mathlib.Data.List.Nodup
import Mathlib.Data.List.Pairwise

/-!
# Traces of an allocator's client

A trace lists what a program did with its memory: the calls of `malloc` with
their answers, the calls of `free`, and the accesses. It is kept newest first.
The regions that are live after a trace are computed from it. A trace is sound
if every answer of `malloc` was fresh, every `free` released a live region (or
was given the null pointer) and every access stayed inside a live region. In a
sound trace that leaves nothing live, every region was freed exactly once.
-/
namespace ShareBike.Lib

inductive Event
  | malloc (size : ℕ) (answer : Option ℕ)
  | free (addr : ℕ)
  | access (range : Region)
  deriving DecidableEq

/-- Events, the newest first. -/
abbrev Trace := List Event

/-- The regions that were allocated and not yet freed. -/
def live : Trace → List Region
  | [] => []
  | .malloc size (some a) :: t => ⟨a, size⟩ :: live t
  | .malloc _ none :: t => live t
  | .free a :: t => (live t).filter (·.addr ≠ a)
  | .access _ :: t => live t

/-- A new region does not touch the live ones and has a base of its own. -/
def Fresh (t : Trace) (r : Region) : Prop := r.addr ≠ 0 ∧ ∀ s ∈ live t, r.Apart s

def Sound : Trace → Prop
  | [] => True
  | .malloc size (some a) :: t => Fresh t ⟨a, size⟩ ∧ Sound t
  | .malloc _ none :: t => Sound t
  | .free a :: t => (a = 0 ∨ ∃ r ∈ live t, r.addr = a) ∧ Sound t
  | .access x :: t => (∃ r ∈ live t, x.Within r) ∧ Sound t

/-- An allocator answers a request by failing or with a fresh region, aligned to
`align` bytes, that lies in the address space. Its answer may depend on
everything that happened before. -/
structure Allocator (align : ℕ) where
  malloc : Trace → ℕ → Option ℕ
  fresh : ∀ t size a, malloc t size = some a → Fresh t ⟨a, size⟩
  aligned : ∀ t size a, malloc t size = some a → align ∣ a
  bounded : ∀ t size a, malloc t size = some a → a + size < wordSize

@[simp] lemma live_access (x : Region) (t : Trace) : live (.access x :: t) = live t := rfl

@[simp] lemma live_malloc_none (n : ℕ) (t : Trace) : live (.malloc n none :: t) = live t := rfl

@[simp] lemma live_malloc_some (n a : ℕ) (t : Trace) :
    live (.malloc n (some a) :: t) = ⟨a, n⟩ :: live t := rfl

lemma mem_live_free {a : ℕ} {t : Trace} {r : Region} :
    r ∈ live (.free a :: t) ↔ r ∈ live t ∧ r.addr ≠ a := by
  simp [live]

lemma Sound.tail {e : Event} {t : Trace} (h : Sound (e :: t)) : Sound t := by
  cases e with
  | malloc n r => cases r with
    | none => exact h
    | some a => exact h.2
  | free a => exact h.2
  | access x => exact h.2

lemma Sound.of_append {u t : Trace} (h : Sound (u ++ t)) : Sound t := by
  induction u with
  | nil => exact h
  | cons e u ih => exact ih h.tail

/-- Live regions do not overlap and are not null. -/
lemma Sound.live_apart {t : Trace} (h : Sound t) :
    (live t).Pairwise Region.Apart ∧ ∀ r ∈ live t, r.addr ≠ 0 := by
  induction t with
  | nil => simp [live]
  | cons e t ih =>
    obtain ⟨hp, hn⟩ := ih h.tail
    cases e with
    | malloc n r => cases r with
      | none => exact ⟨hp, hn⟩
      | some a =>
        obtain ⟨hne, hapart⟩ := h.1
        refine ⟨List.pairwise_cons.mpr ⟨hapart, hp⟩, ?_⟩
        intro r hr
        rcases List.mem_cons.mp hr with rfl | hr
        · exact hne
        · exact hn r hr
    | free a => exact ⟨hp.filter _, fun r hr => hn r (List.mem_filter.mp hr).1⟩
    | access x => exact ⟨hp, hn⟩

lemma Sound.nodup_addr {t : Trace} (h : Sound t) : ((live t).map Region.addr).Nodup :=
  List.pairwise_map.mpr (h.live_apart.1.imp Region.Apart.addr_ne)

lemma Sound.apart_of_ne {t : Trace} (h : Sound t) {r s : Region} (hr : r ∈ live t)
    (hs : s ∈ live t) (hne : r ≠ s) : r.Apart s :=
  h.live_apart.1.forall hr hs hne

/-- Freeing a live region removes its base, and no other. -/
lemma Sound.perm_free {t : Trace} (h : Sound t) {a : ℕ} {l : List ℕ}
    (ho : ((live t).map Region.addr).Perm (a :: l)) :
    ((live (.free a :: t)).map Region.addr).Perm l := by
  have hnodup := List.nodup_cons.mp (ho.nodup_iff.mp h.nodup_addr)
  have hmap : (live (.free a :: t)).map Region.addr =
      ((live t).map Region.addr).filter (· ≠ a) := by
    simp only [live, List.filter_map, Function.comp_def]
  rw [hmap]
  refine (ho.filter _).trans ?_
  rw [List.filter_cons_of_neg (by simp), List.filter_eq_self.mpr]
  intro b hb
  have hne : b ≠ a := fun he => hnodup.1 (he ▸ hb)
  simpa using hne

/-- The event is an answer of `malloc` with the base `a`. -/
def Event.Returns (a : ℕ) : Event → Bool
  | .malloc _ (some b) => b = a
  | _ => false

/-- The events up to the next region with the base `a`, oldest first. -/
def untilReturned (a : ℕ) (post : List Event) : List Event :=
  post.takeWhile fun e => !e.Returns a

/-- The calls `free(a)` before the base `a` is handed out again: one if it is
live now, none if it is not. -/
private lemma count_free {a : ℕ} (ha : a ≠ 0) (post : List Event) (t : Trace)
    (h : Sound (post.reverse ++ t)) (hend : live (post.reverse ++ t) = []) :
    (untilReturned a post).count (.free a) =
      if a ∈ (live t).map Region.addr then 1 else 0 := by
  induction post generalizing t with
  | nil =>
    have hnil : live t = [] := hend
    simp [untilReturned, hnil]
  | cons e post ih =>
    rw [List.reverse_cons, List.append_assoc] at h hend
    have hrec := ih (e :: t) h hend
    have hsound : Sound (e :: t) := h.of_append
    cases e with
    | access x => simpa [untilReturned, Event.Returns] using hrec
    | free b =>
      simp only [untilReturned, Event.Returns, Bool.not_false, List.takeWhile_cons_of_pos,
        List.count_cons] at hrec ⊢
      rw [hrec]
      by_cases hb : b = a
      · -- the region with base `a` is released by this call
        subst hb
        have hmem : b ∈ (live t).map Region.addr := by
          obtain ⟨r, hr, he⟩ := hsound.1.resolve_left ha
          exact List.mem_map.mpr ⟨r, hr, he⟩
        have hgone : b ∉ (live (.free b :: t)).map Region.addr := by
          intro hm
          obtain ⟨r, hr, he⟩ := List.mem_map.mp hm
          exact (mem_live_free.mp hr).2 he
        simp [hmem, hgone]
      · have hiff : a ∈ (live (.free b :: t)).map Region.addr ↔
            a ∈ (live t).map Region.addr := by
          simp only [List.mem_map, mem_live_free]
          constructor
          · rintro ⟨r, ⟨hr, _⟩, he⟩
            exact ⟨r, hr, he⟩
          · rintro ⟨r, hr, rfl⟩
            exact ⟨r, ⟨hr, Ne.symm hb⟩, rfl⟩
        simp [hiff, hb]
    | malloc n r => cases r with
      | none => simpa [untilReturned, Event.Returns] using hrec
      | some b =>
        by_cases hb : b = a
        · -- the base is handed out again, so it was not live
          subst hb
          have hnot : b ∉ (live t).map Region.addr := by
            intro hm
            obtain ⟨s, hs, he⟩ := List.mem_map.mp hm
            exact (hsound.1.2 s hs).addr_ne he.symm
          simp [untilReturned, Event.Returns, hnot]
        · have hb' : a ≠ b := Ne.symm hb
          simpa [untilReturned, Event.Returns, hb, hb'] using hrec

/-- In a sound trace that leaves nothing live, every region that `malloc`
returned is passed to `free` exactly once before its base is handed out again. -/
theorem Sound.freed_once {t : Trace} (h : Sound t) (hend : live t = []) {n a : ℕ}
    {pre post : List Event} (ht : t.reverse = pre ++ .malloc n (some a) :: post) :
    (untilReturned a post).count (.free a) = 1 := by
  have he : t = post.reverse ++ (.malloc n (some a) :: pre.reverse) := by
    rw [← List.reverse_reverse t, ht]
    simp
  rw [he] at h hend
  have hsound : Sound (.malloc n (some a) :: pre.reverse) := h.of_append
  rw [count_free hsound.1.1 post _ h hend]
  simp

/-- Every access of a sound trace falls into a region that is live at that time. -/
theorem Sound.access_live {t : Trace} (h : Sound t) {x : Region} {pre post : List Event}
    (ht : t.reverse = pre ++ .access x :: post) :
    ∃ r ∈ live pre.reverse, x.Within r := by
  have he : t = post.reverse ++ (.access x :: pre.reverse) := by
    rw [← List.reverse_reverse t, ht]
    simp
  rw [he] at h
  exact h.of_append.1

/-- The calls of `malloc`. -/
def mallocs : Trace → ℕ
  | [] => 0
  | .malloc _ _ :: t => mallocs t + 1
  | .free _ :: t => mallocs t
  | .access _ :: t => mallocs t

@[simp] lemma mallocs_access (x : Region) (t : Trace) :
    mallocs (.access x :: t) = mallocs t := rfl

@[simp] lemma mallocs_malloc (n : ℕ) (r : Option ℕ) (t : Trace) :
    mallocs (.malloc n r :: t) = mallocs t + 1 := rfl

/-- The addresses passed to `free`, the latest first. -/
def frees : Trace → List ℕ
  | [] => []
  | .malloc _ _ :: t => frees t
  | .free a :: t => a :: frees t
  | .access _ :: t => frees t

@[simp] lemma frees_access (x : Region) (t : Trace) : frees (.access x :: t) = frees t := rfl

@[simp] lemma frees_free (a : ℕ) (t : Trace) : frees (.free a :: t) = a :: frees t := rfl

/-- The end of the highest region that was ever handed out. -/
def highest : Trace → ℕ
  | [] => 0
  | .malloc size (some a) :: t => max (a + max size 1) (highest t)
  | _ :: t => highest t

lemma le_highest {t : Trace} {r : Region} (h : r ∈ live t) :
    r.addr + max r.size 1 ≤ highest t := by
  induction t with
  | nil => simp [live] at h
  | cons e t ih =>
    cases e with
    | malloc n answer => cases answer with
      | none => exact ih h
      | some a =>
        rcases List.mem_cons.mp h with rfl | h
        · exact le_max_left _ _
        · exact (ih h).trans (le_max_right _ _)
    | free a => exact ih (mem_live_free.mp h).1
    | access x => exact ih h

/-- The allocator that never hands out an address again. -/
def Allocator.bump (align : ℕ) (halign : 0 < align) : Allocator align where
  malloc t size :=
    let a := (highest t / align + 1) * align
    if a + size < wordSize then some a else none
  fresh t size a h := by
    obtain ⟨-, he⟩ := Option.ite_none_right_eq_some.mp h
    cases he
    refine ⟨(Nat.mul_pos (Nat.succ_pos _) halign).ne', fun s hs => .inr ?_⟩
    have hle := le_highest hs
    have hlt := Nat.lt_mul_of_div_lt (Nat.lt_succ_self (highest t / align)) halign
    exact hle.trans hlt.le
  aligned t size a h := by
    obtain ⟨-, he⟩ := Option.ite_none_right_eq_some.mp h
    cases he
    exact Nat.dvd_mul_left _ _
  bounded t size a h := by
    obtain ⟨hlt, he⟩ := Option.ite_none_right_eq_some.mp h
    cases he
    exact hlt

/-- The allocator that serves only some of the requests. -/
def Allocator.restrict {align : ℕ} (A : Allocator align) (serves : Trace → ℕ → Bool) :
    Allocator align where
  malloc t size := if serves t size then A.malloc t size else none
  fresh t size a h := A.fresh t size a (Option.ite_none_right_eq_some.mp h).2
  aligned t size a h := A.aligned t size a (Option.ite_none_right_eq_some.mp h).2
  bounded t size a h := A.bounded t size a (Option.ite_none_right_eq_some.mp h).2

end ShareBike.Lib
