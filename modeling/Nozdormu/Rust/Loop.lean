import Nozdormu.Rust.Exec
import Mathlib.Logic.Relation

/-!
# Loops with a step bound

A Rust `loop` is a body that either leaves with a result or goes round with a new
state. `iterate` runs it with a bound on the rounds and ends in the `hang` fault when
the bound is used up.
-/

namespace Nozdormu.Rust

open Relation

variable {ε σ ρ : Type} {body : σ → Exec ε (ρ ⊕ σ)}

/-- Run the loop for at most the given number of rounds. -/
def iterate (body : σ → Exec ε (ρ ⊕ σ)) : Nat → σ → Exec ε ρ
  | 0, _ => crash .hang
  | n + 1, s => do
    match ← body s with
    | .inl r => return r
    | .inr s' => iterate body n s'

/-- The body goes round from `s` to `s'`. -/
def GoesTo (body : σ → Exec ε (ρ ⊕ σ)) (s s' : σ) : Prop := body s = .ok (.inr s')

/-- A loop ends if its rounds return and lower a measure. -/
theorem returns_iterate {μ : σ → Nat}
    (h : ∀ s, ∃ r, body s = .ok r ∧ ∀ s', r = .inr s' → μ s' < μ s) :
    ∀ {n : Nat} {s : σ}, μ s < n → Returns (iterate body n s) := by
  intro n
  induction n with
  | zero => intro s hn; exact absurd hn (Nat.not_lt_zero _)
  | succ n ih =>
    intro s hn
    obtain ⟨r, hr, hlower⟩ := h s
    rw [iterate, hr, ok_bind]
    cases r with
    | inl r => exact ⟨r, rfl⟩
    | inr s' =>
      have := hlower s' rfl
      exact ih (by omega)

/-- No reached state faults or is stuck. -/
def LoopSafe (body : σ → Exec ε (ρ ⊕ σ)) (s : σ) : Prop :=
  ∀ s', ReflTransGen (GoesTo body) s s' → NoFault (body s') ∧ ¬ GoesTo body s' s'

theorem LoopSafe.tail {s s' : σ} (h : LoopSafe body s) (hs : GoesTo body s s') : LoopSafe body s' :=
  fun t ht => h t (ReflTransGen.head hs ht)

theorem noFault_iterate_succ {n : Nat} {s : σ} : NoFault (iterate body (n + 1) s) ↔
      NoFault (body s) ∧ ∀ s', GoesTo body s s' → NoFault (iterate body n s') := by
  rw [iterate, noFault_bind]
  constructor
  · intro h
    rcases h with ⟨hbody, hrest⟩
    exact ⟨hbody, fun s' hs => hrest (.inr s') hs⟩
  intro h
  rcases h with ⟨hbody, hrest⟩
  refine ⟨hbody, ?_⟩
  intro r hr
  cases r with
  | inl r => exact noFault_ok r
  | inr s' => exact hrest s' hr

/-- A run that does not fault, under any bound, shows the loop safe. -/
theorem LoopSafe.of_noFault : ∀ {n : Nat} {s : σ}, NoFault (iterate body n s) →
    LoopSafe body s := by
  intro n
  induction n with
  | zero => intro s h; exact absurd h (noFault_crash _)
  | succ n ih =>
    intro s h
    obtain ⟨hbody, hrest⟩ := noFault_iterate_succ.1 h
    intro t ht
    rcases ReflTransGen.cases_head ht with rfl | ⟨s', hs', ht'⟩
    · refine ⟨hbody, ?_⟩
      intro hstuck
      -- one round later it is the same state, and safe by induction
      exact (ih (hrest s hstuck) s ReflTransGen.refl).2 hstuck
    · exact ih (hrest s' hs') t ht'

/-- With a measure that every round lowers unless it changes nothing, on states that keep an
invariant, a safe loop ends within that many rounds. -/
theorem LoopSafe.noFault {I : σ → Prop} {μ : σ → Nat}
    (hμ : ∀ s s', I s → GoesTo body s s' → I s' ∧ (μ s' < μ s ∨ s' = s)) :
    ∀ {n : Nat} {s : σ}, I s → LoopSafe body s → μ s < n → NoFault (iterate body n s) := by
  intro n
  induction n with
  | zero => intro s _ _ h; exact absurd h (Nat.not_lt_zero _)
  | succ n ih =>
    intro s hI hsafe hn
    obtain ⟨hbody, hstuck⟩ := hsafe s ReflTransGen.refl
    refine noFault_iterate_succ.2 ⟨hbody, ?_⟩
    intro s' hs'
    obtain ⟨hI', hlt | rfl⟩ := hμ s s' hI hs'
    · exact ih hI' (hsafe.tail hs') (by omega)
    · exact absurd hs' hstuck

end Nozdormu.Rust
