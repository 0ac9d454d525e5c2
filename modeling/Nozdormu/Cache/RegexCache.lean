import Mathlib.Data.List.AList
import Nozdormu.Rust.Loop
import Nozdormu.Rust.Str

/-!
# Compiled patterns

`get_or_compile_regex` of `cdn-cache/src/strategy.rs` and `cdn-middleware/src/redirect/url.rs` keeps
up to 256 compiled patterns and a queue that says which goes first. The loop that makes room does
nothing when the queue is empty: it ends since the queue holds the keys of the map, which every call
keeps (`Coherent`).
-/

namespace Nozdormu.Cache

open Rust

variable {π ρ : Type} [DecidableEq π]

/-- Patterns are only compared. -/
structure RegexCache (π ρ : Type) where
  map : AList fun _ : π => ρ
  order : List π

/-- The two modules that have such a cache. -/
inductive RegexUser where
  | strategy
  | redirect

/-- The queue after a hit: `redirect` moves the pattern to its end. -/
def RegexUser.onHit (user : RegexUser) (pattern : π) (order : List π) : List π :=
  match user with
  | .strategy => order
  | .redirect => if pattern ∈ order then order.erase pattern ++ [pattern] else order

namespace RegexCache

def evictOne (c : RegexCache π ρ) : Exec Empty (RegexCache π ρ ⊕ RegexCache π ρ) :=
  if c.map.keys.length < 256 then return .inl c
  else
    match c.order with
    | [] => return .inr c
    | oldest :: order => return .inr ⟨c.map.erase oldest, order⟩

variable (user : RegexUser) (compile : π → Option ρ)

/-- `compile` is `Regex::new`. -/
def getOrCompileRegex (pattern : π) (c : RegexCache π ρ) : Exec Empty (Option ρ × RegexCache π ρ) :=
  match c.map.lookup pattern with
  | some re => return (some re, { c with order := user.onHit pattern c.order })
  | none =>
    match compile pattern with
    | some re => do
      let c ← iterate evictOne (c.order.length + 1) c
      return (some re, ⟨c.map.insert pattern re, c.order ++ [pattern]⟩)
    | none => return (none, c)

def getAll : (patterns : List π) → RegexCache π ρ → Exec Empty (List (Option ρ) × RegexCache π ρ)
  | [], c => return ([], c)
  | pattern :: patterns, c => do
    let (re, c) ← getOrCompileRegex user compile pattern c
    let (res, c) ← getAll patterns c
    return (re :: res, c)

/-- The queue holds the keys of the map, which are not too many, and the map what they compile to.
-/
structure Coherent (c : RegexCache π ρ) : Prop where
  keys : c.order.Perm c.map.keys
  length_le : c.order.length ≤ 256
  compiled : ∀ pattern re, c.map.lookup pattern = some re → compile pattern = some re

variable {compile} {c : RegexCache π ρ}

theorem Coherent.evict (h : Coherent compile c) :
    ∃ c', iterate evictOne (c.order.length + 1) c = .ok c' ∧
    Coherent compile c' ∧ c'.order.length < 256 ∧ c'.order ⊆ c.order := by
  obtain ⟨map, order⟩ := c
  obtain ⟨hkeys, hle, hcompiled⟩ := h
  dsimp only at hkeys hle hcompiled ⊢
  have hlen := hkeys.length_eq
  by_cases hroom : map.keys.length < 256
  · refine ⟨⟨map, order⟩, ?_, ⟨hkeys, hle, hcompiled⟩, show order.length < 256 by omega,
      List.Subset.refl _⟩
    rw [iterate, evictOne, if_pos hroom]
    rfl
  cases order with
  | nil => exact absurd (hlen ▸ Nat.zero_lt_succ _) hroom
  | cons oldest order =>
    have hperm : order.Perm (map.erase oldest).keys := by
      rw [AList.keys_erase]
      exact (List.cons_perm_iff_perm_erase.1 hkeys).2
    have hlt : order.length < 256 := hle
    refine ⟨⟨map.erase oldest, order⟩, ?_, ⟨hperm, Nat.le_of_lt hlt, fun pattern re hre => ?_⟩, hlt,
      List.subset_cons_self ..⟩
    · rw [iterate, evictOne, if_neg hroom]
      show iterate evictOne (order.length + 1) _ = _
      rw [iterate, evictOne, if_pos (hperm.length_eq ▸ hlt)]
      rfl
    · refine hcompiled pattern re ?_
      by_cases heq : pattern = oldest
      · rw [heq, AList.lookup_erase] at hre
        cases hre
      · rwa [AList.lookup_erase_ne heq] at hre

theorem Coherent.getOrCompileRegex (h : Coherent compile c) (pattern : π) :
    ∃ c', getOrCompileRegex user compile pattern c = .ok (compile pattern, c') ∧
      Coherent compile c' := by
  unfold RegexCache.getOrCompileRegex
  cases hfound : c.map.lookup pattern with
  | some re =>
    rw [h.compiled pattern re hfound]
    have hperm : (user.onHit pattern c.order).Perm c.order := by
      have hmem : pattern ∈ c.order := h.keys.mem_iff.2
        (AList.lookup_isSome.1 (by rw [hfound]; rfl))
      cases user with
      | strategy => exact .refl _
      | redirect =>
        rw [RegexUser.onHit, if_pos hmem]
        exact (List.perm_append_singleton ..).trans (List.perm_cons_erase hmem).symm
    exact ⟨_, rfl, hperm.trans h.keys, hperm.length_eq ▸ h.length_le, h.compiled⟩
  | none =>
    cases hcompile : compile pattern with
    | none => exact ⟨c, rfl, h⟩
    | some re =>
      obtain ⟨c', hevict, hc', hroom, hsub⟩ := h.evict
      have hnew : pattern ∉ c'.map.keys := fun hmem =>
        AList.lookup_eq_none.1 hfound (h.keys.mem_iff.1 (hsub (hc'.keys.mem_iff.2 hmem)))
      simp only [hevict, ok_bind]
      refine ⟨_, rfl, ?_, by simp only [List.length_append, List.length_singleton]; omega, ?_⟩
      · rw [AList.keys_insert, List.erase_of_not_mem hnew]
        exact (List.perm_append_singleton ..).trans (hc'.keys.cons _)
      · intro pattern' re' hre'
        by_cases heq : pattern' = pattern
        · rw [heq, AList.lookup_insert] at hre'
          rw [heq, hcompile, hre']
        · rw [AList.lookup_insert_ne heq] at hre'
          exact hc'.compiled pattern' re' hre'

/-- **Every sequence of calls** returns what compiling afresh gives, and leaves the same patterns in
the map and the queue, each once and at most 256. -/
theorem getAll_spec (compile : π → Option ρ) (patterns : List π) :
    ∃ c, getAll user compile patterns ⟨∅, []⟩ = .ok (patterns.map compile, c) ∧
      c.order.Perm c.map.keys ∧ c.order.Nodup ∧ c.order.length ≤ 256 := by
  suffices h : ∀ {c : RegexCache π ρ}, Coherent compile c → ∃ c',
      getAll user compile patterns c = .ok (patterns.map compile, c') ∧ Coherent compile c' by
    obtain ⟨c, hrun, hc⟩ := h (c := ⟨∅, []⟩) ⟨.refl _, Nat.zero_le _, fun _ _ hre => by cases hre⟩
    exact ⟨c, hrun, hc.keys, hc.keys.nodup_iff.2 c.map.nodupKeys, hc.length_le⟩
  induction patterns with
  | nil => exact fun {c} h => ⟨c, rfl, h⟩
  | cons pattern patterns ih =>
    intro c h
    obtain ⟨c₁, hone, h₁⟩ := h.getOrCompileRegex user pattern
    obtain ⟨c₂, hrest, h₂⟩ := ih h₁
    refine ⟨c₂, ?_, h₂⟩
    simp only [getAll, hone, hrest, ok_bind, List.map_cons, pure_eq_ok]

end RegexCache

end Nozdormu.Cache
