import Mathlib.Data.List.Sort
import Nozdormu.Rust.Exec

/-!
# `slice::binary_search_by`

The standard library's search, transcribed: halve `size`, keep `base`, no early
exit on equality, one last comparison at the end. It is total on any slice; on
an unsorted one its answer is documented as meaningless, but the loop still
fixes it, and two facts survive without any sortedness:
-/

namespace Nozdormu.Rust

variable {α : Type}

/-- `while size > 1`: move `base` to the middle unless that element is greater. -/
def binarySearchLoop (cmp : α → Ordering) (xs : List α) : (fuel size base : Nat) → Nat
  | 0, _, base => base
  | fuel + 1, size, base =>
    if 1 < size then
      let mid := base + size / 2
      let base' :=
        match xs[mid]? with
        | some y => if cmp y = .gt then base else mid
        | none => base
      binarySearchLoop cmp xs fuel (size - size / 2) base'
    else base

/-- `xs.binary_search_by(cmp)`: `Ok(index)` as `.ok`, `Err(position)` as
`.error`. -/
def binarySearchBy (cmp : α → Ordering) (xs : List α) : Except Nat Nat :=
  if xs.length = 0 then .error 0
  else
    let base := binarySearchLoop cmp xs xs.length xs.length 0
    match xs[base]? with
    | some y =>
      match cmp y with
      | .eq => .ok base
      | .lt => .error (base + 1)
      | .gt => .error base
    | none => .error base

/-- The loop invariant at window `[base, base + size)`: `base` is the start of
the slice or not greater, and the end of the window is the end of the slice or
sits right before or right at a greater element (the second when an odd window
was halved towards the left, which keeps its middle element). -/
structure SearchInv (cmp : α → Ordering) (xs : List α) (size base : Nat) : Prop where
  pos : 1 ≤ size
  le : base + size ≤ xs.length
  left : base = 0 ∨ ∀ y, xs[base]? = some y → cmp y ≠ .gt
  right : base + size = xs.length ∨ (∀ y, xs[base + size]? = some y → cmp y = .gt) ∨
    ∀ y, xs[base + size - 1]? = some y → cmp y = .gt

variable {cmp : α → Ordering} {xs : List α}

/-- One round preserves the invariant on the halved window. -/
theorem SearchInv.step {size base : Nat} (h : SearchInv cmp xs size base) (hs : 1 < size) {y : α}
    (hy : xs[base + size / 2]? = some y) :
    SearchInv cmp xs (size - size / 2) (if cmp y = .gt then base else base + size / 2) := by
  have hle := h.le
  by_cases hgt : cmp y = .gt
  · rw [if_pos hgt]
    refine ⟨by omega, by omega, h.left, .inr ?_⟩
    rcases Nat.mod_two_eq_zero_or_one size with hk | hk
    · left
      intro z hz
      rw [show base + (size - size / 2) = base + size / 2 by omega, hy] at hz
      cases hz
      exact hgt
    · -- odd: the middle element stays the last of the window
      right
      intro z hz
      rw [show base + (size - size / 2) - 1 = base + size / 2 by omega, hy] at hz
      cases hz
      exact hgt
  · rw [if_neg hgt]
    have hend : base + size / 2 + (size - size / 2) = base + size := by omega
    refine ⟨by omega, by omega, .inr ?_, ?_⟩
    · intro z hz
      rw [hy] at hz
      cases hz
      exact hgt
    · rw [hend]
      exact h.right

/-- The loop ends with the invariant at a window of one element. -/
theorem binarySearchLoop_inv :
    ∀ (fuel size base : Nat), size ≤ fuel → SearchInv cmp xs size base →
      SearchInv cmp xs 1 (binarySearchLoop cmp xs fuel size base) := by
  intro fuel
  induction fuel with
  | zero =>
    intro size base hf h
    exact absurd h.pos (by omega)
  | succ fuel ih =>
    intro size base hf h
    unfold binarySearchLoop
    by_cases hs : 1 < size
    · rw [if_pos hs]
      have hlt : base + size / 2 < xs.length := by
        have := h.le
        omega
      have hy := List.getElem?_eq_getElem hlt
      simp only [hy]
      exact ih _ _ (by omega) (h.step hs hy)
    · rw [if_neg hs]
      have h1 : size = 1 := by
        have := h.pos
        omega
      rw [← h1]
      exact h

theorem binarySearchBy_ok {i : Nat}
    (h : binarySearchBy cmp xs = .ok i) : ∃ y, xs[i]? = some y ∧ cmp y = .eq := by
  unfold binarySearchBy at h
  split at h
  · cases h
  dsimp only at h
  split at h
  next y hy =>
    cases hc : cmp y with
    | eq =>
      simp only [hc, Except.ok.injEq] at h
      exact ⟨y, h ▸ hy, hc⟩
    | lt | gt => simp [hc] at h
  next => cases h

/-- `Err(pos)` is a local insertion point, sorted or not. -/
theorem binarySearchBy_error {pos : Nat} (h : binarySearchBy cmp xs = .error pos) :
    pos ≤ xs.length ∧ (0 < pos → ∀ y, xs[pos - 1]? = some y → cmp y = .lt) ∧
      ∀ y, xs[pos]? = some y → cmp y = .gt := by
  unfold binarySearchBy at h
  split at h
  next h0 =>
    cases h
    refine ⟨Nat.zero_le _, fun h => absurd h (by omega), ?_⟩
    intro y hy
    rw [List.getElem?_eq_none (by omega)] at hy
    cases hy
  next h0 =>
    dsimp only at h
    have hinit : SearchInv cmp xs xs.length 0 := ⟨by omega, by omega, .inl rfl, .inl (by omega)⟩
    have hinv := binarySearchLoop_inv xs.length xs.length 0 (Nat.le_refl _) hinit
    generalize binarySearchLoop cmp xs xs.length xs.length 0 = base at h hinv
    have hlt : base < xs.length := by
      have := hinv.le
      omega
    have hy := List.getElem?_eq_getElem hlt
    rw [hy] at h
    cases hc : cmp xs[base] with
    | eq => simp [hc] at h
    | lt =>
      simp only [hc, Except.error.injEq] at h
      subst h
      refine ⟨hlt, ?_, ?_⟩
      · intro _ z hz
        rw [Nat.add_sub_cancel, hy] at hz
        cases hz
        exact hc
      intro z hz
      rcases hinv.right with he | hg | hg
      · rw [List.getElem?_eq_none (by omega)] at hz
        cases hz
      · exact hg z hz
      · rw [hg _ hy] at hc
        cases hc
    | gt =>
      simp only [hc, Except.error.injEq] at h
      subst h
      -- a greater `base` was never moved to, so it is the first element
      have hb : base = 0 := by
        rcases hinv.left with hb | hb
        · exact hb
        · exact absurd hc (hb _ hy)
      refine ⟨Nat.le_of_lt hlt, fun h => absurd h (by omega), ?_⟩
      intro z hz
      rw [hy] at hz
      cases hz
      exact hc

/-! ## `slice::sort_unstable_by_key` -/

/-- A function that sorts by a key. -/
structure SortUnstable {κ : Type} [LinearOrder κ] (key : α → κ) where
  sort : List α → List α
  perm : ∀ xs, (sort xs).Perm xs
  sorted : ∀ xs, (sort xs).Pairwise fun a b => key a ≤ key b

/-- Insertion sort is one. -/
def SortUnstable.insertion {κ : Type} [LinearOrder κ] (key : α → κ) : SortUnstable key where
  sort xs := xs.insertionSort fun a b => key a ≤ key b
  perm xs := List.perm_insertionSort _ xs
  sorted xs := by
    have : Std.Total fun a b : α => key a ≤ key b := ⟨fun a b => le_total (key a) (key b)⟩
    have : IsTrans α fun a b => key a ≤ key b := ⟨fun a b c => le_trans⟩
    exact List.pairwise_insertionSort _ xs

end Nozdormu.Rust
