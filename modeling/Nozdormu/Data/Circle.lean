import Mathlib.Data.Set.Defs
import Nozdormu.Rust.BinarySearch

/-!
# Points on a circle

The first point of a set from a place on, where behind the greatest point comes the least one again.
If a set loses points, but not the one that was first, it stays the first (`IsNext.mono`): this is
what makes a hash ring hand over no more than it has to. In a sorted list the point is found by a
binary search (`isNext_position`).
-/

namespace Nozdormu.Circle

open Rust List

variable {α κ : Type} [LinearOrder κ] {S T : Set κ} {a x y : κ}

/-- `x` is the first point of the set from `a` on, around the end. -/
structure IsNext (S : Set κ) (a x : κ) : Prop where
  mem : x ∈ S
  first : (a ≤ x ∧ ∀ z ∈ S, a ≤ z → x ≤ z) ∨ ((∀ z ∈ S, z < a) ∧ ∀ z ∈ S, x ≤ z)

theorem IsNext.unique (h : IsNext S a x) (h' : IsNext S a y) : x = y := by
  rcases h.first with ⟨hle, hmin⟩ | ⟨hall, hmin⟩
  · rcases h'.first with ⟨hle', hmin'⟩ | ⟨hall', -⟩
    · exact le_antisymm (hmin y h'.mem hle') (hmin' x h.mem hle)
    · exact absurd (hall' x h.mem) (not_lt.2 hle)
  · rcases h'.first with ⟨hle', -⟩ | ⟨-, hmin'⟩
    · exact absurd (hall y h'.mem) (not_lt.2 hle')
    · exact le_antisymm (hmin y h'.mem) (hmin' x h.mem)

/-- Points that were not first do not matter. -/
theorem IsNext.mono (h : IsNext S a x) (hsub : T ⊆ S) (hx : x ∈ T) : IsNext T a x := by
  refine ⟨hx, ?_⟩
  rcases h.first with ⟨hle, hmin⟩ | ⟨hall, hmin⟩
  · exact .inl ⟨hle, fun z hz => hmin z (hsub hz)⟩
  · exact .inr ⟨fun z hz => hall z (hsub hz), fun z hz => hmin z (hsub hz)⟩

/-- Where a binary search by the key ends, around the end of the list. -/
def position (key : α → κ) (xs : List α) (a : κ) : Nat :=
  match binarySearchBy (fun x => compare (key x) a) xs with
  | .ok i => i
  | .error i => if xs.length ≤ i then 0 else i

def keys (key : α → κ) (xs : List α) : Set κ := fun k => ∃ x ∈ xs, key x = k

variable {key : α → κ} {xs : List α}

theorem le_of_sorted (hsorted : xs.Pairwise fun x y => key x ≤ key y) {i j : Nat} {x y : α}
    (hij : i ≤ j) (hx : xs[i]? = some x) (hy : xs[j]? = some y) : key x ≤ key y := by
  obtain ⟨hi, rfl⟩ := List.getElem?_eq_some_iff.1 hx
  obtain ⟨hj, rfl⟩ := List.getElem?_eq_some_iff.1 hy
  rcases Nat.lt_or_eq_of_le hij with hlt | rfl
  · exact pairwise_iff_getElem.1 hsorted i j hi hj hlt
  · exact le_refl _

/-- In a sorted list the search finds the first point. -/
theorem isNext_position (hsorted : xs.Pairwise fun x y => key x ≤ key y) (hne : xs ≠ []) (a : κ) :
    ∃ x, xs[position key xs a]? = some x ∧ IsNext (keys key xs) a (key x) := by
  have hmem : ∀ {i : Nat} {x : α}, xs[i]? = some x → key x ∈ keys key xs :=
    fun hx => ⟨_, mem_of_getElem? hx, rfl⟩
  unfold position
  cases hfound : binarySearchBy (fun x => compare (key x) a) xs with
  | ok i =>
    obtain ⟨x, hx, heq⟩ := binarySearchBy_ok hfound
    have hkey : key x = a := compare_eq_iff_eq.1 heq
    refine ⟨x, hx, hmem hx, .inl ⟨le_of_eq hkey.symm, ?_⟩⟩
    intro z _ hz
    exact hkey.symm ▸ hz
  | error i =>
    obtain ⟨hle, hbefore, hat⟩ := binarySearchBy_error hfound
    -- what stands before the insertion point is less
    have hless : ∀ {j : Nat} {y : α}, j < i → xs[j]? = some y → key y < a := by
      intro j y hj hy
      have hlast : i - 1 < xs.length := by omega
      have hcmp := hbefore (by omega) _ (List.getElem?_eq_getElem hlast)
      exact lt_of_le_of_lt (le_of_sorted hsorted (by omega) hy (List.getElem?_eq_getElem hlast))
        (compare_lt_iff_lt.1 hcmp)
    by_cases hend : xs.length ≤ i
    · -- every point is less, and the search starts again at the least one
      have hpos := length_pos_iff.2 hne
      have hx := List.getElem?_eq_getElem hpos
      refine ⟨xs[0], ?_, hmem hx, .inr ⟨?_, ?_⟩⟩
      · simp only [if_pos hend]
        exact hx
      · rintro z ⟨y, hy, rfl⟩
        obtain ⟨j, hj, rfl⟩ := mem_iff_getElem.1 hy
        exact hless (by omega) (List.getElem?_eq_getElem hj)
      · rintro z ⟨y, hy, rfl⟩
        obtain ⟨j, hj, rfl⟩ := mem_iff_getElem.1 hy
        exact le_of_sorted hsorted (Nat.zero_le j) hx (List.getElem?_eq_getElem hj)
    · have hx := List.getElem?_eq_getElem (Nat.lt_of_not_le hend)
      have hgreater := compare_gt_iff_gt.1 (hat _ hx)
      refine ⟨xs[i], ?_, hmem hx, .inl ⟨le_of_lt hgreater, ?_⟩⟩
      · simp only [if_neg hend]
        exact hx
      · rintro z ⟨y, hy, rfl⟩ hz
        obtain ⟨j, hj, rfl⟩ := mem_iff_getElem.1 hy
        rcases Nat.lt_or_ge j i with hlt | hge
        · exact absurd (hless hlt (List.getElem?_eq_getElem hj)) (not_lt.2 hz)
        · exact le_of_sorted hsorted hge hx (List.getElem?_eq_getElem hj)

end Nozdormu.Circle
