import Mathlib.Data.List.Basic
import Mathlib.Tactic.Basic

/-!
# First fit

Bins of one capacity are given by the positions up to which they are filled. An item
goes into the first bin with room for it; where it starts in a bin depends on the
position, so that an item may ask for alignment.
-/
namespace ShareBike.Lib

/-- An item of some size; `start` gives its place in a bin that is filled so far. -/
structure Item where
  size : ℕ
  start : ℕ → ℕ

namespace FirstFit

/-- The bins with the item placed, unless no bin has room. -/
def place (capacity : ℕ) (i : Item) : List ℕ → Option (List ℕ)
  | [] => none
  | used :: bins =>
    if i.start used + i.size ≤ capacity then some ((i.start used + i.size) :: bins)
    else (place capacity i bins).map (used :: ·)

/-- The bins with all items placed in their order. -/
def pack (capacity : ℕ) : List Item → List ℕ → Option (List ℕ)
  | [], bins => some bins
  | i :: items, bins => (place capacity i bins).bind (pack capacity items)

variable {capacity used : ℕ} {i : Item} {bins bins' : List ℕ} {items : List Item}

lemma place_cons_of_fits (h : i.start used + i.size ≤ capacity) :
    place capacity i (used :: bins) = some ((i.start used + i.size) :: bins) := if_pos h

lemma place_cons_of_full (h : ¬ i.start used + i.size ≤ capacity) :
    place capacity i (used :: bins) = (place capacity i bins).map (used :: ·) := if_neg h

lemma pack_cons_of_placed (h : place capacity i bins = some bins') :
    pack capacity (i :: items) bins = pack capacity items bins' := by
  simp [pack, h]

lemma pack_cons_of_full (h : place capacity i bins = none) :
    pack capacity (i :: items) bins = none := by
  simp [pack, h]

end FirstFit

end ShareBike.Lib
