import Mathlib.Algebra.Ring.Nat
import Mathlib.Data.List.Basic
import Mathlib.Tactic.Common

/-!
# Run-length encoded sequences
-/

namespace Nozdormu.RunLength

/-- Runs of `(count, value)`. -/
abbrev Runs := List (Nat × Nat)

def total (rs : Runs) : Nat := (rs.map (·.1)).sum

/-- Sum of the values of the first `k` items (of all of them beyond the end). -/
def prefixSum : Runs → Nat → Nat
  | [], _ => 0
  | (c, v) :: rs, k => if k ≤ c then k * v else c * v + prefixSum rs (k - c)

/-- The number of leading items whose values sum to at most `t`. -/
def locate : Runs → Nat → Nat
  | [], _ => 0
  | (c, v) :: rs, t => if t < c * v then t / v else c + locate rs (t - c * v)

def valueAt {α : Type} : List (Nat × α) → Nat → Option α
  | [], _ => none
  | (c, v) :: rs, k => if k < c then some v else valueAt rs (k - c)

@[simp] theorem total_nil : total [] = 0 := rfl

@[simp] theorem total_cons (r : Nat × Nat) (rs : Runs) : total (r :: rs) = r.1 + total rs := rfl

theorem prefixSum_mono (rs : Runs) : ∀ {j k : Nat}, j ≤ k → prefixSum rs j ≤ prefixSum rs k := by
  induction rs with
  | nil => intro j k _; exact Nat.le_refl _
  | cons r rs ih =>
    obtain ⟨c, v⟩ := r
    intro j k hjk
    unfold prefixSum
    by_cases hk : k ≤ c
    · rw [if_pos (by omega), if_pos hk]
      exact Nat.mul_le_mul_right v hjk
    rw [if_neg hk]
    by_cases hj : j ≤ c
    · rw [if_pos hj]
      exact Nat.le_trans (Nat.mul_le_mul_right v hj) (Nat.le_add_right _ _)
    · rw [if_neg hj]
      exact Nat.add_le_add_left (ih (by omega)) _

@[simp] theorem prefixSum_zero (rs : Runs) : prefixSum rs 0 = 0 := by
  cases rs with
  | nil => rfl
  | cons r rs => simp [prefixSum]

theorem prefixSum_cons_of_le {c v k : Nat} (rs : Runs) (h : c ≤ k) :
    prefixSum ((c, v) :: rs) k = c * v + prefixSum rs (k - c) := by
  rw [prefixSum]
  by_cases hk : k ≤ c
  · obtain rfl : k = c := Nat.le_antisymm hk h
    rw [if_pos hk, Nat.sub_self, prefixSum_zero, Nat.add_zero]
  · rw [if_neg hk]

/-- One item more adds its value, which `f` reads. -/
theorem prefixSum_succ {α : Type} (f : α → Nat) : ∀ (rs : List (Nat × α)) {k : Nat},
    k < total (rs.map (Prod.map id f)) → ∃ v, valueAt rs k = some v ∧
      prefixSum (rs.map (Prod.map id f)) (k + 1) = prefixSum (rs.map (Prod.map id f)) k + f v := by
  intro rs
  induction rs with
  | nil => intro k hk; cases hk
  | cons r rs ih =>
    obtain ⟨c, v⟩ := r
    intro k hk
    simp only [List.map_cons, Prod.map_apply, id, total_cons] at hk ⊢
    by_cases hkc : k < c
    · refine ⟨v, if_pos hkc, ?_⟩
      rw [prefixSum, prefixSum, if_pos (by omega), if_pos (by omega), Nat.succ_mul]
    · obtain ⟨w, hw, hsum⟩ := @ih (k - c) (by omega)
      refine ⟨w, (if_neg hkc).trans hw, ?_⟩
      rw [prefixSum_cons_of_le _ (by omega), prefixSum_cons_of_le _ (by omega),
        Nat.add_assoc, ← hsum,
        Nat.sub_add_comm (by omega)]

theorem locate_le_total : ∀ (rs : Runs) (t : Nat), locate rs t ≤ total rs := by
  intro rs
  induction rs with
  | nil => intro t; exact Nat.le_refl _
  | cons r rs ih =>
    obtain ⟨c, v⟩ := r
    intro t
    unfold locate
    split
    next h =>
      have : t / v < c := Nat.div_lt_of_lt_mul (by rwa [Nat.mul_comm])
      exact Nat.le_trans (Nat.le_of_lt this) (Nat.le_add_right _ _)
    next => exact Nat.add_le_add_left (ih _) c

/-- **Galois pair.** Item `s` starts by `t` exactly when at least `s` items end
by `t`. -/
theorem prefixSum_le_iff : ∀ (rs : Runs) {s t : Nat}, s ≤ total rs →
    (prefixSum rs s ≤ t ↔ s ≤ locate rs t) := by
  intro rs
  induction rs with
  | nil =>
    intro s t hs
    simp only [total_nil] at hs
    simp [prefixSum, locate, hs]
  | cons r rs ih =>
    obtain ⟨c, v⟩ := r
    intro s t hs
    rw [total_cons] at hs
    unfold prefixSum locate
    by_cases ht : t < c * v
    · -- the time falls inside this run, whose value is positive
      rw [if_pos ht]
      have hv : 0 < v := Nat.pos_of_ne_zero fun h => by simp [h] at ht
      by_cases hsc : s ≤ c
      · rw [if_pos hsc]
        exact (Nat.le_div_iff_mul_le hv).symm
      · rw [if_neg hsc]
        have hdiv : t / v < c := Nat.div_lt_of_lt_mul (by rwa [Nat.mul_comm])
        omega
    · rw [if_neg ht]
      by_cases hsc : s ≤ c
      · rw [if_pos hsc]
        have hle : s * v ≤ c * v := Nat.mul_le_mul_right v hsc
        omega
      · rw [if_neg hsc]
        have htail := @ih (s - c) (t - c * v) (by omega)
        omega

theorem locate_mono (rs : Runs) {t u : Nat} (h : t ≤ u) : locate rs t ≤ locate rs u := by
  have hle := locate_le_total rs t
  refine (prefixSum_le_iff rs hle).1 (Nat.le_trans ?_ h)
  exact (prefixSum_le_iff rs hle).2 (Nat.le_refl _)

theorem prefixSum_le_mul (b : Nat) : ∀ (rs : Runs) (k : Nat), (∀ r ∈ rs, r.2 ≤ b) →
    prefixSum rs k ≤ k * b := by
  intro rs
  induction rs with
  | nil => intro k _; exact Nat.zero_le _
  | cons r rs ih =>
    obtain ⟨c, v⟩ := r
    intro k hb
    have hv : v ≤ b := hb (c, v) (List.mem_cons_self ..)
    unfold prefixSum
    split
    next => exact Nat.mul_le_mul_left k hv
    next hk =>
      have htail := ih (k - c) fun r hr => hb r (List.mem_cons_of_mem _ hr)
      have hrun : c * v ≤ c * b := Nat.mul_le_mul_left c hv
      have hsplit : k * b = c * b + (k - c) * b := by
        rw [← Nat.add_mul]
        congr 1
        omega
      omega

end Nozdormu.RunLength
