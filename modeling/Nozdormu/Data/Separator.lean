import Mathlib.Data.List.Basic
import Mathlib.Data.List.Perm.Basic

/-!
# Text joined by a separator

Pieces are written one after the other with a separator between them, and nothing is escaped.
Where a text can be read back, the pieces in front do not contain the separator; a second reading
of the same text then agrees with the first, or it is behind it: its remainder starts after a
separator that the first reading takes for text (`behind_of_eq`, `behind_step`).
-/

namespace Nozdormu.Data

open List

variable {α : Type} {c : α} {x y r r' : List α}

/-- `r'` is what follows one of the separators in `r`. -/
def Behind (c : α) (r r' : List α) : Prop := ∃ m, r = m ++ c :: r'

/-- Two readings of one text agree, or the separator of one is text to the other. -/
theorem append_cons_eq (h : x ++ c :: r = y ++ c :: r') : (y = x ∧ r' = r) ∨
    (∃ m, y = x ++ c :: m ∧ r = m ++ c :: r') ∨ ∃ m, x = y ++ c :: m ∧ r' = m ++ c :: r := by
  rcases append_eq_append_iff.1 h with ⟨m, rfl, hm⟩ | ⟨m, rfl, hm⟩
  · cases m with
    | nil => exact .inl ⟨append_nil x, (List.cons.inj hm).2.symm⟩
    | cons d m =>
      obtain ⟨rfl, hr⟩ := List.cons.inj hm
      exact .inr (.inl ⟨m, rfl, hr⟩)
  · cases m with
    | nil => exact .inl ⟨(append_nil y).symm, (List.cons.inj hm).2⟩
    | cons d m =>
      obtain ⟨rfl, hr⟩ := List.cons.inj hm
      exact .inr (.inr ⟨m, rfl, hr⟩)

theorem append_cons_cases (hx : c ∉ x) (h : x ++ c :: r = y ++ c :: r') :
    (y = x ∧ r' = r) ∨ ∃ m, y = x ++ c :: m ∧ r = m ++ c :: r' := by
  refine (append_cons_eq h).imp_right fun hlonger => hlonger.resolve_right ?_
  rintro ⟨m, rfl, -⟩
  exact hx (mem_append_right y mem_cons_self)

/-- Pieces without the separator can be read back. -/
theorem append_cons_inj (hx : c ∉ x) (hy : c ∉ y) (h : x ++ c :: r = y ++ c :: r') :
    x = y ∧ r = r' := by
  rcases append_cons_cases hx h with ⟨hxy, hr⟩ | ⟨m, hlonger, -⟩
  · exact ⟨hxy.symm, hr.symm⟩
  · exact absurd (hlonger ▸ mem_append_right x mem_cons_self) hy

/-- If only the last piece is known to be without the separator, the first one of the second reading
may be longer. -/
theorem append_cons_cases_right (hr' : c ∉ r') (h : x ++ c :: r = y ++ c :: r') :
    (y = x ∧ r' = r) ∨ ∃ m, y = x ++ c :: m ∧ r = m ++ c :: r' := by
  refine (append_cons_eq h).imp_right fun hlonger => hlonger.resolve_right ?_
  rintro ⟨m, -, rfl⟩
  exact hr' (mem_append_right m mem_cons_self)

/-- Last pieces without the separator can be read back as well. -/
theorem append_cons_inj_right (hr : c ∉ r) (hr' : c ∉ r') (h : x ++ c :: r = y ++ c :: r') :
    x = y ∧ r = r' := by
  rcases append_cons_cases_right hr' h with ⟨hxy, hr⟩ | ⟨m, -, hlonger⟩
  · exact ⟨hxy.symm, hr.symm⟩
  · exact absurd (hlonger ▸ mem_append_right m mem_cons_self) hr

/-- Two readings of one text agree on the first piece, or the second one is behind. -/
theorem behind_of_eq (hx : c ∉ x) (h : x ++ c :: r = y ++ c :: r') :
    (y = x ∧ r' = r) ∨ Behind c r r' := by
  rcases append_cons_cases hx h with heq | hbehind
  · exact .inl heq
  · obtain ⟨m, -, hm⟩ := hbehind
    exact .inr ⟨m, hm⟩

/-- A reading that is behind stays behind. -/
theorem behind_step (hx : c ∉ x) (h : Behind c (x ++ c :: r) (y ++ c :: r')) : Behind c r r' := by
  obtain ⟨m, hm⟩ := h
  rcases append_cons_cases hx hm with heq | hbehind
  · obtain ⟨-, hr⟩ := heq
    exact ⟨y, hr.symm⟩
  · obtain ⟨m', -, hr⟩ := hbehind
    exact ⟨m' ++ c :: y, by rw [hr, append_assoc, cons_append]⟩

/-- Text without the separator holds nothing up. -/
theorem behind_of_append (hx : c ∉ x) (h : Behind c (x ++ r) r') : Behind c r r' := by
  obtain ⟨m, hm⟩ := h
  rcases append_eq_append_iff.1 hm with hlong | hshort
  · obtain ⟨m', -, hr⟩ := hlong
    exact ⟨m', hr⟩
  obtain ⟨n, rfl, hn⟩ := hshort
  cases n with
  | nil => exact ⟨[], hn.symm⟩
  | cons d n =>
    cases hn
    exact absurd (mem_append_right m (mem_cons_self ..)) hx

/-! ## Joining and splitting -/

theorem intercalate_cons (c : α) (l : List α) (ls : List (List α)) :
    [c].intercalate (l :: ls) = l ++ if ls.isEmpty then [] else c :: [c].intercalate ls := by
  cases ls with
  | nil => simp [List.intercalate]
  | cons l' ls => simp [intercalate_cons_cons]

theorem mem_intercalate {a : α} (ha : a ≠ c) : ∀ {ls : List (List α)},
    a ∈ [c].intercalate ls ↔ ∃ l ∈ ls, a ∈ l := by
  intro ls
  induction ls with
  | nil => simp [List.intercalate]
  | cons l ls ih =>
    cases ls with
    | nil => simp
    | cons l' ls => simp [ih, ha]

variable {ls : List (List α)}

theorem infix_of_mem_intercalate {l : List α} (h : l ∈ ls) :
    ∃ a b, [c].intercalate ls = a ++ l ++ b := by
  induction ls with
  | nil => cases h
  | cons l' ls ih =>
    rw [intercalate_cons]
    rcases mem_cons.1 h with rfl | h
    · exact ⟨[], _, rfl⟩
    · obtain ⟨a, b, hab⟩ := ih h
      rw [if_neg (by simpa using ne_nil_of_mem h), hab]
      exact ⟨l' ++ c :: a, b, by simp⟩

variable [BEq α] [LawfulBEq α]

theorem not_mem_of_mem_splitOn {s l : List α} (hl : l ∈ s.splitOn c) : c ∉ l := by
  by_cases hc : c ∈ s
  · obtain ⟨x, y, hs, hx⟩ := eq_append_cons_of_mem hc
    have hshorter : y.length < s.length := by simp [hs]; omega
    rw [hs, splitOn_append_cons_self_of_not_mem hx] at hl
    rcases mem_cons.1 hl with rfl | hl
    · exact hx
    · exact not_mem_of_mem_splitOn hl
  · rw [splitOn_eq_singleton hc, mem_singleton] at hl
    rwa [hl]
termination_by s.length

/-- What is appended without the separator goes to the last piece. -/
theorem splitOn_append_of_not_mem {y : List α} (hy : c ∉ y) (x : List α) :
    ∃ front last, x.splitOn c = front ++ [last] ∧ (x ++ y).splitOn c = front ++ [last ++ y] := by
  by_cases hc : c ∈ x
  · obtain ⟨first, rest, hs, -⟩ := eq_append_cons_of_mem hc
    have hshorter : rest.length < x.length := by simp [hs]; omega
    obtain ⟨front, last, hx, hxy⟩ := splitOn_append_of_not_mem hy rest
    refine ⟨first.splitOn c ++ front, last, ?_, ?_⟩
    · rw [hs, splitOn_append_cons_self, hx, append_assoc]
    · rw [hs, append_assoc, cons_append, splitOn_append_cons_self, hxy, append_assoc]
  · exact ⟨[], x, splitOn_eq_singleton hc, splitOn_eq_singleton (by simp [hc, hy])⟩
termination_by x.length

theorem infix_of_mem_splitOn {s l : List α} (h : l ∈ s.splitOn c) : ∃ a b, s = a ++ l ++ b := by
  obtain ⟨a, b, hab⟩ := infix_of_mem_intercalate h
  exact ⟨a, b, (intercalate_splitOn c).symm.trans hab⟩

/-- Pieces in another order still split at the same separators. -/
theorem splitOn_intercalate_perm {s : List α} (h : ls.Perm (s.splitOn c)) :
    ([c].intercalate ls).splitOn c = ls := by
  apply splitOn_intercalate
  · intro l hl
    exact not_mem_of_mem_splitOn (h.mem_iff.1 hl)
  · intro hnil
    rw [hnil] at h
    exact splitOn_ne_nil c s h.nil_eq.symm

theorem mem_intercalate_perm {a : α} (ha : a ≠ c) {s : List α}
    (h : ls.Perm (s.splitOn c)) : a ∈ [c].intercalate ls ↔ a ∈ s := by
  have hjoin : [c].intercalate (s.splitOn c) = s := intercalate_splitOn c
  conv_rhs => rw [← hjoin]
  rw [mem_intercalate ha, mem_intercalate ha]
  exact exists_congr fun l => and_congr_left fun _ => h.mem_iff

end Nozdormu.Data
