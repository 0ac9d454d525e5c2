import Nozdormu.Rust.Exec

/-!
# Operations of `str`

The string functions of the Rust standard library that routing and logging use, on the list
of characters of a string. A slice `&s[..n]` counts bytes of the UTF-8 encoding and panics
inside a character (`returnsIff_strPrefix`); splitting and parsing take apart what formatting
put together (`splitN_append`, `splitOnce_append`, `parseUInt_digits`).
-/

namespace Nozdormu.Rust

open List

variable {ε : Type}

/-- A string, as its characters. -/
abbrev Str := List Char

instance : Coe String Str := ⟨String.toList⟩

/-! ## Slicing -/

/-- `s.len()`: bytes of the UTF-8 encoding. -/
def byteLen (s : Str) : Nat := (s.map Char.utf8Size).sum

/-- `&s[..n]`. -/
def strPrefix : (s : Str) → (n : Nat) → Exec ε Str
  | [], n => if n = 0 then return [] else crash .slice
  | c :: s, n =>
    if n = 0 then return []
    else if c.utf8Size ≤ n then return c :: (← strPrefix s (n - c.utf8Size))
    else crash .slice

/-- Byte `n` of the string is the start of a character, or its end. -/
def CharBoundary (s : Str) (n : Nat) : Prop := ∃ k, byteLen (s.take k) = n

theorem byteLen_cons (c : Char) (s : Str) : byteLen (c :: s) = c.utf8Size + byteLen s := rfl

theorem charBoundary_cons {c : Char} {s : Str} {n : Nat} (h : n ≠ 0) :
    CharBoundary (c :: s) n ↔ c.utf8Size ≤ n ∧ CharBoundary s (n - c.utf8Size) := by
  constructor
  · intro hb
    obtain ⟨k, hk⟩ := hb
    cases k with
    | zero => exact absurd hk.symm h
    | succ k =>
      rw [take_succ_cons, byteLen_cons] at hk
      exact ⟨by omega, k, by omega⟩
  · intro hb
    obtain ⟨hle, k, hk⟩ := hb
    refine ⟨k + 1, ?_⟩
    rw [take_succ_cons, byteLen_cons]
    omega

/-- A slice panics exactly off the character boundaries. -/
theorem returnsIff_strPrefix : ∀ (s : Str) (n : Nat),
    ReturnsIff (strPrefix s n : Exec ε Str) (CharBoundary s n) := by
  have hzero : ∀ s : Str, CharBoundary s 0 := fun s => ⟨0, rfl⟩
  intro s
  induction s with
  | nil =>
    intro n
    unfold strPrefix
    by_cases hn : n = 0
    · rw [if_pos hn]
      exact .of_eq_ok rfl (hn ▸ hzero [])
    · rw [if_neg hn]
      refine ⟨fun h => absurd h (noFault_crash _), fun hb => ?_⟩
      obtain ⟨k, hk⟩ := hb
      rw [take_nil] at hk
      exact absurd hk.symm hn
  | cons c s ih =>
    intro n
    unfold strPrefix
    by_cases hn : n = 0
    · rw [if_pos hn]
      exact .of_eq_ok rfl (hn ▸ hzero _)
    rw [if_neg hn]
    by_cases hle : c.utf8Size ≤ n
    · rw [if_pos hle]
      exact ((ih _).map _).congr (by rw [charBoundary_cons hn, and_iff_right hle])
    · rw [if_neg hle]
      exact ⟨fun h => absurd h (noFault_crash _), fun hb =>
        absurd ((charBoundary_cons hn).1 hb).1 hle⟩

/-! ## Taking apart -/

/-- `s.strip_prefix(pre)`. -/
def stripStart : (pre s : Str) → Option Str
  | [], s => some s
  | _ :: _, [] => none
  | a :: pre, b :: s => if a = b then stripStart pre s else none

/-- `s.strip_suffix(suf)`. -/
def stripEnd (suf s : Str) : Option Str := (stripStart suf.reverse s.reverse).map List.reverse

/-- `s.splitn(n, sep)`. -/
def splitN (sep : Char) : (n : Nat) → (s : Str) → List Str
  | 0, _ => []
  | 1, s => [s]
  | n + 2, s =>
    match s.dropWhile (· ≠ sep) with
    | [] => [s]
    | _ :: rest => s.takeWhile (· ≠ sep) :: splitN sep (n + 1) rest

/-- `s.split_once(pat)`. -/
def splitOnce (pat : Str) : (s : Str) → Option (Str × Str)
  | [] => (stripStart pat []).map fun rest => ([], rest)
  | c :: s =>
    match stripStart pat (c :: s) with
    | some rest => some ([], rest)
    | none => (splitOnce pat s).map fun r => (c :: r.1, r.2)

/-- `s.rsplit_once(sep)`. -/
def rsplitOnce (sep : Char) (s : Str) : Option (Str × Str) :=
  (splitOnce [sep] s.reverse).map fun r => (r.2.reverse, r.1.reverse)

@[simp] theorem stripStart_append (pre s : Str) : stripStart pre (pre ++ s) = some s := by
  induction pre with
  | nil => rfl
  | cons a pre ih => rw [cons_append, stripStart, if_pos rfl, ih]

theorem stripStart_eq_some_iff {pre s rest : Str} :
    stripStart pre s = some rest ↔ s = pre ++ rest := by
  constructor
  · intro h
    induction pre generalizing s with
    | nil => exact Option.some.inj h
    | cons a pre ih =>
      cases s with
      | nil => cases h
      | cons b s =>
        rw [stripStart] at h
        split at h
        next heq => rw [heq, ih h, cons_append]
        next => cases h
  · intro h
    rw [h, stripStart_append]

@[simp] theorem stripEnd_append (s suf : Str) : stripEnd suf (s ++ suf) = some s := by
  rw [stripEnd, reverse_append, stripStart_append, Option.map_some, reverse_reverse]

theorem splitN_append {sep : Char} {a : Str} (h : sep ∉ a) (n : Nat) (rest : Str) :
    splitN sep (n + 2) (a ++ sep :: rest) = a :: splitN sep (n + 1) rest := by
  have hkeep : ∀ c ∈ a, decide (c ≠ sep) = true :=
    fun c hc => decide_eq_true (fun heq => h (heq ▸ hc))
  rw [splitN, dropWhile_append_of_pos hkeep, takeWhile_append_of_pos hkeep,
    dropWhile_cons_of_neg (by simp), takeWhile_cons_of_neg (by simp), append_nil]

/-- The pattern is found behind a text that does not hold its first character. -/
theorem splitOnce_append {p : Char} {pat a : Str} (h : p ∉ a) (rest : Str) :
    splitOnce (p :: pat) (a ++ (p :: pat) ++ rest) = some (a, rest) := by
  induction a with
  | nil =>
    have hfound := stripStart_append (p :: pat) rest
    rw [nil_append, cons_append] at *
    rw [splitOnce, hfound]
  | cons c a ih =>
    rw [mem_cons, not_or] at h
    obtain ⟨hne, ha⟩ := h
    rw [cons_append, cons_append, splitOnce, stripStart, if_neg hne]
    rw [ih ha, Option.map_some]

theorem splitOnce_cons {c : Char} {a : Str} (h : c ∉ a) (rest : Str) :
    splitOnce [c] (a ++ c :: rest) = some (a, rest) := by
  rw [append_cons]
  exact splitOnce_append h rest

theorem eq_append_of_splitOnce {pat s a b : Str} (h : splitOnce pat s = some (a, b)) :
    s = a ++ pat ++ b := by
  induction s generalizing a with
  | nil =>
    obtain ⟨rest, hrest, heq⟩ := Option.map_eq_some_iff.1 h
    cases heq
    exact stripStart_eq_some_iff.1 hrest
  | cons c s ih =>
    rw [splitOnce] at h
    split at h
    next rest hrest =>
      cases h
      exact stripStart_eq_some_iff.1 hrest
    obtain ⟨⟨front, rest⟩, hsplit, heq⟩ := Option.map_eq_some_iff.1 h
    cases heq
    rw [ih hsplit, cons_append, cons_append]

/-- The first of several pieces ends at the first separator. -/
theorem splitN_eq_cons_cons {sep : Char} {n : Nat} {s a b : Str} {l : List Str}
    (h : splitN sep (n + 2) s = a :: b :: l) :
    sep ∉ a ∧ ∃ rest, s = a ++ sep :: rest ∧ splitN sep (n + 1) rest = b :: l := by
  rw [splitN] at h
  split at h
  next => cases h
  next c rest hdrop =>
    obtain ⟨rfl, hrest⟩ := List.cons.inj h
    have hsep : c = sep := by
      by_contra hne
      have hhead := List.head?_dropWhile_not (fun x => decide (x ≠ sep)) s
      rw [hdrop] at hhead
      simp [hne] at hhead
    subst hsep
    refine ⟨fun hmem => ?_, rest, ?_, hrest⟩
    · have hkept := all_eq_true.1 (all_takeWhile ) _ hmem
      simp at hkept
    · rw [← hdrop, takeWhile_append_dropWhile]

/-- `char::is_whitespace`. -/
def isWhitespace (c : Char) : Bool :=
  (9 ≤ c.toNat && c.toNat ≤ 13) || (0x2000 ≤ c.toNat && c.toNat ≤ 0x200A) ||
    [0x20, 0x85, 0xA0, 0x1680, 0x2028, 0x2029, 0x202F, 0x205F, 0x3000].contains c.toNat

/-- `s.trim()`. -/
def trim (s : Str) : Str :=
  ((s.dropWhile isWhitespace).reverse.dropWhile isWhitespace).reverse

/-- `s.split_whitespace()`. -/
def splitWhitespace (s : Str) : List Str := (s.splitOnP isWhitespace).filter (· ≠ [])

/-- `s.parse()` for an unsigned `w`-bit type: an optional `+`, then decimal digits. -/
def parseUInt (w : Nat) (s : Str) : Option Nat :=
  let digits := if s.head? = some '+' then s.tail else s
  if digits.isEmpty ∨ ¬ digits.all Char.isDigit then none
  else
    let n := Nat.ofDigitChars 10 digits 0
    if n < 2 ^ w then some n else none

def hexChars : Str := "0123456789abcdef".toList

/-- `hex_encode` of `cdn-common`. -/
def hexEncode (bytes : List UInt8) : Str :=
  bytes.flatMap fun b => [hexChars.getD (b.toNat / 16) '0', hexChars.getD (b.toNat % 16) '0']

/-- The decimal digits of a number. -/
def digits (n : Nat) : Str := (toString n).toList

theorem digits_ne_nil (n : Nat) : digits n ≠ [] := by
  rw [digits, Nat.toString_eq_repr, Nat.toList_repr]
  exact Nat.toDigits_ne_nil

theorem isDigit_of_mem_digits {n : Nat} {c : Char} (h : c ∈ digits n) : c.isDigit = true := by
  rw [digits, Nat.toString_eq_repr, Nat.toList_repr] at h
  exact Nat.isDigit_of_mem_toDigits (by decide) (by decide) h

theorem not_mem_digits {c : Char} (h : c.isDigit = false) (n : Nat) : c ∉ digits n := by
  intro hc
  rw [isDigit_of_mem_digits hc] at h
  cases h

theorem ofDigitChars_digits (n : Nat) : Nat.ofDigitChars 10 (digits n) 0 = n := by
  rw [digits, Nat.toString_eq_repr, Nat.toList_repr]
  exact Nat.ofDigitChars_ten_toDigits

theorem digits_inj {n m : Nat} (h : digits n = digits m) : n = m := by
  rw [← ofDigitChars_digits n, h, ofDigitChars_digits]

theorem parseUInt_digits {w n : Nat} (h : n < 2 ^ w) : parseUInt w (digits n) = some n := by
  have hplus : (digits n).head? ≠ some '+' := fun hhead =>
    not_mem_digits (by decide) n (List.mem_of_head? hhead)
  have hall : (digits n).all Char.isDigit = true :=
    List.all_eq_true.2 fun c hc => isDigit_of_mem_digits hc
  have hguard : ¬ ((digits n).isEmpty = true ∨ ¬ (digits n).all Char.isDigit = true) := by
    rw [hall, List.isEmpty_iff]
    simp [digits_ne_nil n]
  simp only [parseUInt, if_neg hplus]
  rw [if_neg hguard, ofDigitChars_digits, if_pos h]

theorem parseUInt_eq_none {w : Nat} {s : Str} {c : Char} (hc : c ∈ s) (hdigit : c.isDigit = false)
    (hplus : c ≠ '+') : parseUInt w s = none := by
  have hmem : c ∈ if s.head? = some '+' then s.tail else s := by
    split
    next hhead =>
      obtain ⟨rest, rfl⟩ := List.head?_eq_some_iff.1 hhead
      exact (mem_cons.1 hc).resolve_left hplus
    next => exact hc
  unfold parseUInt
  rw [if_pos (Or.inr fun hall => ?_)]
  rw [all_eq_true.1 hall c hmem] at hdigit
  cases hdigit

theorem lt_of_parseUInt {w n : Nat} {s : Str} (h : parseUInt w s = some n) : n < 2 ^ w := by
  unfold parseUInt at h
  dsimp only at h
  generalize (if s.head? = some '+' then s.tail else s) = ds at h
  split at h
  · cases h
  split at h
  next hlt => exact Option.some.inj h ▸ hlt
  next => cases h

example : parseUInt 64 "+18446744073709551615".toList = some (2 ^ 64 - 1) ∧
    parseUInt 64 "18446744073709551616".toList = none ∧ parseUInt 32 "".toList = none := by
  decide +kernel

end Nozdormu.Rust
