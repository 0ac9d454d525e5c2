import Mathlib.Data.List.Basic
import Mathlib.Data.List.Induction

/-!
# Runs of a system
-/

namespace Nozdormu.Data

open List

variable {σ ε : Type} {step : σ → ε → σ} {P I : σ → Prop} {Ok : σ → ε → Prop}

theorem allowed_nil (s : σ) : ∀ pre e, pre ++ [e] <+: [] → Ok (pre.foldl step s) e := by
  intro pre e hpre
  exact absurd (prefix_nil.1 hpre) (by simp)

theorem allowed_cons {e : ε} {events : List ε} {s : σ} :
    (∀ pre e', pre ++ [e'] <+: e :: events → Ok (pre.foldl step s) e') ↔
      Ok s e ∧ ∀ pre e', pre ++ [e'] <+: events → Ok (pre.foldl step (step s e)) e' := by
  constructor
  · intro h
    refine ⟨h [] e (cons_prefix_cons.2 ⟨rfl, nil_prefix⟩), ?_⟩
    intro pre e' hpre
    exact h (e :: pre) e' (cons_prefix_cons.2 ⟨rfl, hpre⟩)
  rintro ⟨hok, h⟩ pre e' hpre
  cases pre with
  | nil =>
    obtain ⟨rfl, -⟩ := cons_prefix_cons.1 hpre
    exact hok
  | cons first rest =>
    obtain ⟨rfl, hrest⟩ := cons_prefix_cons.1 hpre
    exact h rest e' hrest

theorem prefix_of_concat {pre events : List ε} {e : ε} (h : pre ++ [e] <+: events) :
    pre <+: events :=
  (prefix_append pre [e]).trans h

theorem forall_prefix_concat_iff {P : List ε → Prop} {Ok : List ε → ε → Prop} (hP : P [])
    (hstep : ∀ pre e, P pre → (P (pre ++ [e]) ↔ Ok pre e)) (events : List ε) :
    (∀ pre, pre <+: events → P pre) ↔ ∀ pre e, pre ++ [e] <+: events → Ok pre e := by
  refine ⟨fun h pre e hpre => (hstep pre e (h pre (prefix_of_concat hpre))).1 (h _ hpre), ?_⟩
  intro h pre
  induction pre using List.reverseRecOn with
  | nil => exact fun _ => hP
  | append_singleton pre e ih =>
    exact fun hpre => (hstep pre e (ih (prefix_of_concat hpre))).2 (h pre e hpre)

/-- The invariant `I` is what the steps rely on besides. -/
theorem forall_prefix_iff (hstep : ∀ s e, I s → P s → (P (step s e) ↔ Ok s e))
    (hkeep : ∀ s e, I s → P s → Ok s e → I (step s e)) (events : List ε) {s : σ}
    (hI : I s) (hP : P s) :
    (∀ pre, pre <+: events → P (pre.foldl step s)) ↔
      ∀ pre e, pre ++ [e] <+: events → Ok (pre.foldl step s) e := by
  induction events generalizing s with
  | nil =>
    refine iff_of_true ?_ (allowed_nil s)
    intro pre hpre
    rw [prefix_nil.1 hpre]
    exact hP
  | cons e events ih =>
    -- the first step, and the run from there
    have hleft : (∀ pre, pre <+: e :: events → P (pre.foldl step s)) ↔
        ∀ pre, pre <+: events → P (pre.foldl step (step s e)) := by
      constructor
      · intro h pre hpre
        exact h (e :: pre) (cons_prefix_cons.2 ⟨rfl, hpre⟩)
      · intro h pre hpre
        rcases prefix_cons_iff.1 hpre with rfl | ⟨rest, rfl, hrest⟩
        · exact hP
        · exact h rest hrest
    rw [hleft, allowed_cons]
    constructor
    · intro h
      have hok : Ok s e := (hstep s e hI hP).1 (h [] nil_prefix)
      exact ⟨hok, (ih (hkeep s e hI hP hok) (h [] nil_prefix)).1 h⟩
    · rintro ⟨hok, h⟩
      exact (ih (hkeep s e hI hP hok) ((hstep s e hI hP).2 hok)).2 h

theorem forall_prefix_of_allowed (hkeep : ∀ s e, I s → Ok s e → I (step s e))
    {events : List ε} {s : σ}
    (hI : I s) (hok : ∀ pre e, pre ++ [e] <+: events → Ok (pre.foldl step s) e) :
    ∀ pre, pre <+: events → I (pre.foldl step s) := by
  intro pre
  induction pre using List.reverseRecOn with
  | nil => exact fun _ => hI
  | append_singleton pre e ih =>
    intro hpre
    rw [foldl_append]
    exact hkeep _ e (ih (prefix_of_concat hpre)) (hok pre e hpre)

end Nozdormu.Data
