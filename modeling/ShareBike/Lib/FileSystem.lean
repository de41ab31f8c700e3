import Mathlib.Data.List.Basic
import Mathlib.Logic.Function.Basic

/-!
# Files

The names of a directory and the open descriptors refer to files. A file keeps the
pieces that the calls of `write` appended to it, in their order. A call that fails
is a call that is not made; `remove` and `rename` change nothing if there is no file.
-/
namespace ShareBike.Lib

structure FileSystem (N α : Type) where
  dir : N → Option ℕ
  data : ℕ → List α
  fresh : ℕ

namespace FileSystem

variable {N α : Type} [DecidableEq N] (fs : FileSystem N α) {name old new : N} {i : ℕ}

/-- `open` with `O_CREAT`, and with `O_TRUNC` if `trunc`. -/
def openFile (name : N) (trunc : Bool) : ℕ × FileSystem N α :=
  match fs.dir name with
  | some i => (i, if trunc then { fs with data := Function.update fs.data i [] } else fs)
  | none => (fs.fresh, {
      dir := Function.update fs.dir name (some fs.fresh)
      data := Function.update fs.data fs.fresh []
      fresh := fs.fresh + 1 })

/-- `write` to a descriptor that was opened with `O_APPEND`. -/
def write (i : ℕ) (piece : α) : FileSystem N α :=
  { fs with data := Function.update fs.data i (fs.data i ++ [piece]) }

def remove (name : N) : FileSystem N α := { fs with dir := Function.update fs.dir name none }

/-- `rename`; two names of one file stay as they are. -/
def rename (old new : N) : FileSystem N α :=
  match fs.dir old with
  | none => fs
  | some i =>
    if fs.dir new = some i then fs
    else { fs with dir := Function.update (Function.update fs.dir new (some i)) old none }

/-- What is in the file of that name; nothing if there is none. -/
def content (name : N) : List α :=
  match fs.dir name with
  | some i => fs.data i
  | none => []

/-- Every file has one name, and the next file is a new one. -/
structure Sound : Prop where
  unique : ∀ n m i, fs.dir n = some i → fs.dir m = some i → n = m
  fresh : ∀ n i, fs.dir n = some i → i < fs.fresh

variable {fs}

omit [DecidableEq N] in
lemma content_some (h : fs.dir name = some i) : fs.content name = fs.data i := by
  rw [content, h]

omit [DecidableEq N] in
lemma content_none (h : fs.dir name = none) : fs.content name = [] := by
  rw [content, h]

section Content

omit [DecidableEq N] in
/-- A file that is not the one of that name does not matter to it. -/
lemma content_congr {fs' : FileSystem N α} (hdir : fs'.dir name = fs.dir name)
    (hdata : ∀ i, fs.dir name = some i → fs'.data i = fs.data i) :
    fs'.content name = fs.content name := by
  cases h : fs.dir name with
  | none => rw [content_none h, content_none (hdir.trans h)]
  | some i => rw [content_some h, content_some (hdir.trans h), hdata i h]

lemma content_remove (name : N) :
    (fs.remove name).content = Function.update fs.content name [] := by
  funext n
  by_cases hn : n = name
  · subst hn
    rw [Function.update_self]
    exact content_none (Function.update_self ..)
  · rw [Function.update_of_ne hn]
    exact content_congr (Function.update_of_ne hn ..) fun _ _ => rfl

lemma content_rename_none (h : fs.dir old = none) (new : N) : fs.rename old new = fs := by
  rw [rename, h]

/-- A rename moves the file and replaces the one that had the new name. -/
lemma content_rename (hs : fs.Sound) (h : fs.dir old = some i) (hne : old ≠ new) :
    (fs.rename old new).content =
      Function.update (Function.update fs.content new (fs.content old)) old [] := by
  have hnew : fs.dir new ≠ some i := fun hn => hne (hs.unique _ _ i h hn)
  rw [rename, h]
  dsimp only
  rw [if_neg hnew]
  funext n
  by_cases hold : n = old
  · subst hold
    rw [Function.update_self]
    exact content_none (Function.update_self ..)
  · rw [Function.update_of_ne hold]
    by_cases hn : n = new
    · subst hn
      rw [Function.update_self, content_some h]
      refine content_some ?_
      dsimp only
      rw [Function.update_of_ne hold, Function.update_self]
    · rw [Function.update_of_ne hn]
      refine content_congr ?_ fun _ _ => rfl
      dsimp only
      rw [Function.update_of_ne hold, Function.update_of_ne hn]

/-- Opening creates an empty file, or truncates the one there is if it is told to. -/
lemma content_openFile (hs : fs.Sound) (name : N) (trunc : Bool) :
    (fs.openFile name trunc).2.content =
      if trunc then Function.update fs.content name [] else fs.content := by
  cases h : fs.dir name with
  | some i =>
    simp only [openFile, h]
    cases trunc with
    | false => rfl
    | true =>
      funext n
      simp only [if_true]
      by_cases hn : n = name
      · subst hn
        have hc : FileSystem.content { fs with data := Function.update fs.data i [] } n =
            Function.update fs.data i [] i := content_some h
        rw [Function.update_self, hc, Function.update_self]
      · rw [Function.update_of_ne hn]
        refine content_congr rfl fun j hj => Function.update_of_ne ?_ ..
        rintro rfl
        exact hn (hs.unique _ _ j hj h)
  | none =>
    have hnew : (fs.openFile name trunc).2.content = Function.update fs.content name [] := by
      simp only [openFile, h]
      funext n
      by_cases hn : n = name
      · subst hn
        rw [Function.update_self]
        exact (content_some (Function.update_self ..)).trans (Function.update_self ..)
      · rw [Function.update_of_ne hn]
        refine content_congr (Function.update_of_ne hn ..) fun j hj => ?_
        exact Function.update_of_ne (Nat.ne_of_lt (hs.fresh n j hj)) ..
    rw [hnew]
    have hsame : Function.update fs.content name [] = fs.content := by
      rw [← content_none h, Function.update_eq_self]
    split_ifs
    · rfl
    · exact hsame

lemma content_write (hs : fs.Sound) (h : fs.dir name = some i) (piece : α) :
    (fs.write i piece).content =
      Function.update fs.content name (fs.content name ++ [piece]) := by
  funext n
  by_cases hn : n = name
  · subst hn
    have hc : (fs.write i piece).content n = (fs.write i piece).data i := content_some h
    rw [Function.update_self, hc, content_some h]
    exact Function.update_self ..
  · rw [Function.update_of_ne hn]
    refine content_congr rfl fun j hj => Function.update_of_ne ?_ ..
    rintro rfl
    exact hn (hs.unique _ _ j hj h)

end Content

lemma dir_openFile (fs : FileSystem N α) (name : N) (trunc : Bool) :
    (fs.openFile name trunc).2.dir name = some (fs.openFile name trunc).1 := by
  cases h : fs.dir name with
  | some i =>
    cases trunc <;> simp [openFile, h]
  | none => simp [openFile, h]

namespace Sound

lemma remove (hs : fs.Sound) (name : N) : (fs.remove name).Sound := by
  have hsome : ∀ n j, (fs.remove name).dir n = some j → fs.dir n = some j := by
    intro n j hj
    by_cases hn : n = name
    · rw [hn] at hj
      simp [FileSystem.remove] at hj
    · exact (Function.update_of_ne hn ..).symm.trans hj
  exact ⟨fun n m j hn hm => hs.unique n m j (hsome n j hn) (hsome m j hm),
    fun n j hn => hs.fresh n j (hsome n j hn)⟩

lemma rename (hs : fs.Sound) (old new : N) : (fs.rename old new).Sound := by
  unfold FileSystem.rename
  split
  · exact hs
  · rename_i i hold
    split_ifs with hnew
    · exact hs
    · -- the new name has the file of the old one, all others keep theirs
      have hsome : ∀ n j,
          Function.update (Function.update fs.dir new (some i)) old none n = some j →
          (n = new ∧ j = i) ∨ (n ≠ old ∧ fs.dir n = some j) := by
        intro n j hj
        by_cases ho : n = old
        · simp [ho] at hj
        · rw [Function.update_of_ne ho] at hj
          by_cases hn : n = new
          · rw [hn, Function.update_self, Option.some.injEq] at hj
            exact .inl ⟨hn, hj.symm⟩
          · rw [Function.update_of_ne hn] at hj
            exact .inr ⟨ho, hj⟩
      refine ⟨fun n m j hn hm => ?_, fun n j hn => ?_⟩
      · rcases hsome n j hn with ⟨rfl, rfl⟩ | ⟨hno, hn'⟩ <;>
          rcases hsome m j hm with ⟨rfl, hj⟩ | ⟨hmo, hm'⟩
        · rfl
        · exact absurd (hs.unique m old _ hm' hold) hmo
        · exact absurd (hs.unique n old _ hn' (hj ▸ hold)) hno
        · exact hs.unique n m j hn' hm'
      · rcases hsome n j hn with ⟨-, rfl⟩ | ⟨-, hn'⟩
        · exact hs.fresh old j hold
        · exact hs.fresh n j hn'

lemma openFile (hs : fs.Sound) (name : N) (trunc : Bool) :
    (fs.openFile name trunc).2.Sound := by
  cases h : fs.dir name with
  | some i =>
    have hdir : (fs.openFile name trunc).2.dir = fs.dir ∧
        (fs.openFile name trunc).2.fresh = fs.fresh := by
      cases trunc <;> simp [FileSystem.openFile, h]
    exact ⟨by rw [hdir.1]; exact hs.unique, by rw [hdir.1, hdir.2]; exact hs.fresh⟩
  | none =>
    simp only [FileSystem.openFile, h]
    have hsome : ∀ n j, Function.update fs.dir name (some fs.fresh) n = some j →
        (n = name ∧ j = fs.fresh) ∨ (fs.dir n = some j ∧ j < fs.fresh) := by
      intro n j hj
      by_cases hn : n = name
      · rw [hn, Function.update_self, Option.some.injEq] at hj
        exact .inl ⟨hn, hj.symm⟩
      · rw [Function.update_of_ne hn] at hj
        exact .inr ⟨hj, hs.fresh n j hj⟩
    refine ⟨fun n m j hn hm => ?_, fun n j hn => ?_⟩
    · rcases hsome n j hn with ⟨rfl, rfl⟩ | ⟨hn', hlt⟩ <;>
        rcases hsome m _ hm with ⟨rfl, hj⟩ | ⟨hm', hlt'⟩
      · rfl
      · exact absurd hlt' (Nat.lt_irrefl _)
      · exact absurd (hj ▸ hlt) (Nat.lt_irrefl _)
      · exact hs.unique n m j hn' hm'
    · rcases hsome n j hn with ⟨-, rfl⟩ | ⟨-, hlt⟩
      · exact Nat.lt_succ_self _
      · exact Nat.lt_succ_of_lt hlt

omit [DecidableEq N] in
lemma write (hs : fs.Sound) (i : ℕ) (piece : α) : (fs.write i piece).Sound :=
  ⟨hs.unique, hs.fresh⟩

end Sound

end FileSystem

end ShareBike.Lib
