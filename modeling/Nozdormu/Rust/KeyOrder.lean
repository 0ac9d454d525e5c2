import Nozdormu.Rust.Str

/-!
# Keys in order

A range of keys in a sorted store is given by its ends, and keys are compared character by
character. Between two keys with a common start there are only keys with that start
(`isPrefix_of_between`), and numbers that are padded with zeros to one width have the order of the
numbers (`padded_lt_iff`).
-/

namespace Nozdormu.Rust

open List

theorem append_lt_append_iff (pre : Str) {a b : Str} : pre ++ a < pre ++ b ↔ a < b := by
  induction pre with
  | nil => exact Iff.rfl
  | cons c pre ih => simp [ih]

/-- Between two keys with a common start there are only keys with that start. -/
theorem isPrefix_of_between {pre a b key : Str} (hstart : ¬ key < pre ++ a)
    (hend : key < pre ++ b) :
    pre <+: key := by
  induction pre generalizing key with
  | nil => exact nil_prefix
  | cons c pre ih =>
    cases key with
    | nil => exact absurd (nil_lt_cons c (pre ++ a)) hstart
    | cons d key =>
      rw [cons_append, cons_lt_cons_iff] at hstart hend
      rw [not_or, not_and] at hstart
      obtain hlt | ⟨rfl, hkey⟩ := hend
      · exact absurd hlt hstart.1
      · exact cons_prefix_cons.2 ⟨rfl, ih (hstart.2 rfl) hkey⟩

/-! ## Padded numbers -/

/-- `{:0width}` -/
def padded (width n : Nat) : Str := List.replicate (width - (digits n).length) '0' ++ digits n

theorem isDigit_of_mem_padded {width n : Nat} {c : Char} (h : c ∈ padded width n) :
    c.isDigit = true := by
  rcases mem_append.1 h with hzero | hdigit
  · rw [eq_of_mem_replicate hzero]
    decide
  · exact isDigit_of_mem_digits hdigit

theorem ofDigitChars_padded (width n : Nat) : Nat.ofDigitChars 10 (padded width n) 0 = n := by
  rw [padded, Nat.ofDigitChars_append, Nat.ofDigitChars_replicate_zero, Nat.mul_zero,
    ofDigitChars_digits]

theorem padded_inj {width n m : Nat} (h : padded width n = padded width m) : n = m := by
  rw [← ofDigitChars_padded width n, h, ofDigitChars_padded]

theorem length_padded {width n : Nat} (hwidth : 0 < width) (h : n < 10 ^ width) :
    (padded width n).length = width := by
  have hdigits : (digits n).length ≤ width := by
    rw [digits, Nat.toString_eq_repr, Nat.toList_repr]
    exact (Nat.length_toDigits_le_iff (by decide) hwidth).2 h
  rw [padded, length_append, length_replicate]
  omega

theorem digit_lt_ten {c : Char} (h : c.isDigit = true) : 48 ≤ c.toNat ∧ c.toNat - 48 < 10 := by
  simp only [Char.isDigit, Bool.and_eq_true, decide_eq_true_eq] at h
  have hlow : 48 ≤ c.toNat := h.1
  have hhigh : c.toNat ≤ 57 := h.2
  omega

theorem ofDigitChars_cons_zero (c : Char) (l : Str) : Nat.ofDigitChars 10 (c :: l) 0 =
    10 ^ l.length * (c.toNat - 48) + Nat.ofDigitChars 10 l 0 := by
  rw [Nat.ofDigitChars_cons, Nat.mul_zero, Nat.zero_add]
  exact Nat.ofDigitChars_eq_ofDigitChars_zero

theorem leading_lt {b r x y : Nat} (hr : r < b) (h : x < y) : b * x + r < b * y :=
  calc b * x + r
    _ < b * x + b := Nat.add_lt_add_left hr _
    _ = b * (x + 1) := (Nat.mul_succ _ _).symm
    _ ≤ b * y := Nat.mul_le_mul_left _ h

theorem ofDigitChars_lt {l : Str} (h : ∀ c ∈ l, c.isDigit = true) :
    Nat.ofDigitChars 10 l 0 < 10 ^ l.length := by
  induction l with
  | nil => decide
  | cons c l ih =>
    rw [forall_mem_cons] at h
    rw [ofDigitChars_cons_zero, length_cons, Nat.pow_succ]
    exact leading_lt (ih h.2) (digit_lt_ten h.1).2

theorem ofDigitChars_mono {l l' : Str} (hlength : l.length = l'.length)
    (h : ∀ c ∈ l, c.isDigit = true)
    (hlt : l < l') : Nat.ofDigitChars 10 l 0 < Nat.ofDigitChars 10 l' 0 := by
  induction l generalizing l' with
  | nil =>
    rw [List.length_eq_zero_iff.1 hlength.symm] at hlt
    exact absurd hlt (List.lt_irrefl _)
  | cons c l ih =>
    cases l' with
    | nil => cases hlength
    | cons d l' =>
      rw [List.forall_mem_cons] at h
      have hrest : l.length = l'.length := Nat.succ.inj hlength
      rw [ofDigitChars_cons_zero, ofDigitChars_cons_zero, ← hrest]
      rcases List.cons_lt_cons_iff.1 hlt with hlead | ⟨rfl, hlater⟩
      · have hlead : c.toNat < d.toNat := hlead
        have hlow := (digit_lt_ten h.1).1
        exact Nat.lt_add_right _ (leading_lt (ofDigitChars_lt h.2) (by omega))
      · exact Nat.add_lt_add_left (ih hrest h.2 hlater) _

theorem padded_lt_iff {width n m : Nat} (hwidth : 0 < width) (hn : n < 10 ^ width)
    (hm : m < 10 ^ width) :
    padded width n < padded width m ↔ n < m := by
  have hmono : ∀ {n m}, n < 10 ^ width → m < 10 ^ width →
      padded width n < padded width m → n < m := by
    intro n m hn hm hlt
    have hlength := (length_padded hwidth hn).trans (length_padded hwidth hm).symm
    simpa only [ofDigitChars_padded] using ofDigitChars_mono hlength
      (fun _ => isDigit_of_mem_padded) hlt
  refine ⟨hmono hn hm, fun hlt => List.not_le.1 fun hle => ?_⟩
  have hge := List.not_lt.1 fun h => Nat.lt_asymm hlt (hmono hm hn h)
  exact Nat.ne_of_lt hlt (padded_inj (List.le_antisymm hge hle))

end Nozdormu.Rust
