import Mathlib.Data.List.SplitBy

/-!
# A list cut before its starting elements

Some elements of a stream start a unit; the others continue the unit that is open. `cut` is the
list of units. Whoever reads the stream element by element knows that a unit is complete only
when the next one starts, so what it has at the end is all units but the last: `dropLast_cut_*`
say how that list grows with the first element behind an open unit.
-/

namespace Nozdormu.Data

open List

variable {α : Type} (starts : α → Bool)

/-- The units of a list. Elements in front of the first start make up one of their own. -/
def cut (l : List α) : List (List α) := l.splitBy fun _ a => !starts a

variable {l : List α}

theorem cut_ne_nil (h : l ≠ []) : cut starts l ≠ [] := splitBy_ne_nil.2 h

variable {starts}

theorem cut_of_continued {a : α} (h : ∀ b ∈ l, starts b = false) :
    cut starts (a :: l) = [a :: l] := by
  refine splitBy_of_isChain (cons_ne_nil a l) ?_
  induction l generalizing a with
  | nil => exact isChain_singleton a
  | cons b l ih =>
    rw [forall_mem_cons] at h
    exact isChain_cons_cons.2 ⟨by simp [h.1], ih h.2⟩

theorem cut_append_start (l : List α) {a : α} (m : List α) (h : starts a = true) :
    cut starts (l ++ a :: m) = cut starts l ++ cut starts (a :: m) :=
  splitBy_append_cons m (by simp [h])

/-- With the next start the open unit is complete. -/
theorem dropLast_cut_append_start {o a : α} (m : List α)
    (hl : ∀ b ∈ l, starts b = false) (ha : starts a = true) :
    (cut starts (o :: l ++ a :: m)).dropLast = (o :: l) :: (cut starts (a :: m)).dropLast := by
  rw [cut_append_start _ m ha, cut_of_continued hl,
    dropLast_append_of_ne_nil (cut_ne_nil starts (cons_ne_nil a m))]
  rfl

/-- Before it, no unit is. -/
theorem dropLast_cut_of_continued {a : α} (h : ∀ b ∈ l, starts b = false) :
    (cut starts (a :: l)).dropLast = [] := by
  rw [cut_of_continued h]
  rfl

theorem exists_first_start (starts : α → Bool) (l : List α) : (∀ b ∈ l, starts b = false) ∨
    ∃ lead a m, l = lead ++ a :: m ∧ l.takeWhile (fun b => !starts b) = lead ∧
      (∀ b ∈ lead, starts b = false) ∧ starts a = true := by
  induction l with
  | nil => exact .inl (by simp)
  | cons b l ih =>
    by_cases hb : starts b = true
    · exact .inr ⟨[], b, l, rfl, takeWhile_cons_of_neg (by simp [hb]), by simp, hb⟩
    · rw [Bool.not_eq_true] at hb
      rcases ih with hnone | ⟨lead, a, m, rfl, htake, hlead, ha⟩
      · exact .inl (forall_mem_cons.2 ⟨hb, hnone⟩)
      · refine .inr ⟨b :: lead, a, m, rfl, ?_, forall_mem_cons.2 ⟨hb, hlead⟩, ha⟩
        rw [takeWhile_cons_of_pos (by simp [hb]), htake]

/-- What is in front of the first start is no unit that begins with one. -/
theorem filter_cut_of_continued (h : ∀ b ∈ l, starts b = false) :
    (cut starts l).filter (fun u => u.head?.any starts) = [] := by
  cases l with
  | nil => rfl
  | cons b l =>
    rw [forall_mem_cons] at h
    rw [cut_of_continued h.2]
    simp [h.1]

theorem head_of_mem_cut {o : α} (ho : starts o = true) : ∀ {c l : List α},
    (∀ b ∈ c, starts b = false) → ∀ u ∈ cut starts (o :: c ++ l), u.head?.any starts = true := by
  intro c l hc u hu
  -- `o :: c` is the open unit in front of `l`
  induction l generalizing o c with
  | nil =>
    rw [append_nil, cut_of_continued hc, mem_singleton] at hu
    rw [hu]
    simpa using ho
  | cons b l ih =>
    by_cases hb : starts b = true
    · rw [cut_append_start _ l hb, cut_of_continued hc, singleton_append, mem_cons] at hu
      rcases hu with rfl | hu
      · simpa using ho
      · exact ih hb (c := []) (by simp) hu
    have happ : o :: c ++ b :: l = o :: (c ++ [b]) ++ l := by simp
    rw [happ] at hu
    refine ih ho ?_ hu
    intro b' hb'
    rcases mem_append.1 hb' with hb' | hb'
    · exact hc b' hb'
    · rw [mem_singleton.1 hb']
      simpa using hb

end Nozdormu.Data
