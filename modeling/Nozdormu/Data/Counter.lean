import Mathlib.Algebra.Ring.Nat
import Mathlib.Data.List.Nodup
import Mathlib.Data.List.Range
import Mathlib.Data.Nat.ModEq

/-!
# Numbering with a counter of fixed width
-/

namespace Nozdormu.Data

open List

def counting (w first len : Nat) : List Nat := (List.range' first len).map (· % 2 ^ w)

variable {w first len : Nat}

theorem counting_succ :
    counting w first (len + 1) = counting w first len ++ [(first + len) % 2 ^ w] := by
  rw [counting, List.range'_concat, map_append, Nat.one_mul]
  rfl

theorem drop_counting_window {total gone : Nat} (hle : len ≤ total) (hgone : gone ≤ len + 1) :
    (counting w (total - len) len ++ [total % 2 ^ w]).drop gone
      = counting w (total + 1 - (len + 1 - gone)) (len + 1 - gone) := by
  have hnext : total % 2 ^ w = (total - len + len) % 2 ^ w := by rw [Nat.sub_add_cancel hle]
  rw [hnext, ← counting_succ, counting, ← map_drop, drop_range', Nat.mul_one]
  show counting _ _ _ = _
  congr 1
  omega

theorem counting_inj {i j : Nat} (hlen : len ≤ 2 ^ w) (hi : i < len) (hj : j < len)
    (h : (first + i) % 2 ^ w = (first + j) % 2 ^ w) : i = j := by
  have hi' : i < 2 ^ w := Nat.lt_of_lt_of_le hi hlen
  have hj' : j < 2 ^ w := Nat.lt_of_lt_of_le hj hlen
  have hmod : i % 2 ^ w = j % 2 ^ w := Nat.ModEq.add_left_cancel' first h
  rwa [Nat.mod_eq_of_lt hi', Nat.mod_eq_of_lt hj'] at hmod

variable {α : Type} {f : α → Nat} {l : List α}

/-- Things numbered by a counter: each has the number of its place. -/
theorem eq_of_map_eq_counting (h : l.map f = counting w first l.length) {i : Nat} {a : α}
    (ha : l[i]? = some a) :
    f a = (first + i) % 2 ^ w := by
  have hi : i < l.length := (List.getElem?_eq_some_iff.1 ha).1
  have hmap : (l.map f)[i]? = some (f a) := by rw [List.getElem?_map, ha, Option.map_some]
  rw [h, counting, List.getElem?_map, List.getElem?_range' hi, Option.map_some, Nat.one_mul] at hmap
  exact (Option.some.inj hmap).symm

theorem nodup_counting (h : len ≤ 2 ^ w) : (counting w first len).Nodup := by
  refine List.Nodup.map_on ?_ (nodup_range' ..)
  intro a ha b hb hab
  obtain ⟨i, hi, rfl⟩ := mem_range'.1 ha
  obtain ⟨j, hj, rfl⟩ := mem_range'.1 hb
  rw [Nat.one_mul, Nat.one_mul] at hab
  rw [counting_inj h hi hj hab]

theorem filter_numbered {a : α}
    (h : (l.map f).Nodup) (ha : a ∈ l) : l.filter (fun x => f x = f a) = [a] := by
  induction l with
  | nil => cases ha
  | cons b l ih =>
    rw [map_cons, nodup_cons] at h
    rcases mem_cons.1 ha with rfl | ha
    · have hnone : l.filter (fun x => f x = f a) = [] := by
        rw [filter_eq_nil_iff]
        intro x hx heq
        exact h.1 (of_decide_eq_true heq ▸ mem_map_of_mem hx)
      rw [filter_cons, if_pos (decide_eq_true rfl), hnone]
    · have hne : f b ≠ f a := fun heq => h.1 (heq ▸ mem_map_of_mem ha)
      rw [filter_cons, if_neg (by simpa using hne), ih h.2 ha]

theorem find?_numbered {a : α}
    (h : (l.map f).Nodup) (ha : a ∈ l) : l.find? (fun x => f x = f a) = some a := by
  rw [← List.head?_filter, filter_numbered h ha]
  rfl

end Nozdormu.Data
