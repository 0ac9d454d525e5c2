import Mathlib.Data.List.Basic

/-!
# A check and an act that are not one step

Calls share a state. Each looks at it, and if it likes what it sees it acts on it later; in between
other calls may have acted, and other things may have happened. One call at a time is safe
(`Race.run_keeps`): what it saw is still so when it acts. Of two at a time, both can look before
either acts (`Race.run_both`).
-/

namespace Nozdormu.Data

/-- What a call does: `check`, then `act`; `other` is what else happens. -/
structure Protocol (σ α ε : Type) where
  check : α → σ → Bool
  act : α → σ → σ
  other : ε → σ → σ

/-- The state, and the calls that have checked it and not acted yet. -/
structure Race (σ α : Type) where
  shared : σ
  checked : List α := []

inductive RaceStep (α ε : Type) where
  | check (a : α)
  | act (i : Nat)
  | other (e : ε)

namespace Race

variable {σ α ε : Type} (proto : Protocol σ α ε) (n : Nat)

/-- There are at most `n` calls at a time. -/
def step (r : Race σ α) : RaceStep α ε → Race σ α
  | .check a =>
    if r.checked.length < n ∧
      proto.check a r.shared then { r with checked := r.checked ++ [a] } else r
  | .act i =>
    match r.checked[i]? with
    | some a => ⟨proto.act a r.shared, r.checked.eraseIdx i⟩
    | none => r
  | .other e => { r with shared := proto.other e r.shared }

def run (steps : List (RaceStep α ε)) (s : σ) : Race σ α := steps.foldl (step proto n) ⟨s, []⟩

variable {proto n} {I : σ → Prop} {s : σ}

/-- One call at a time keeps what it keeps where its check succeeds, if nothing else spoils a check.
-/
theorem run_keeps (hn : n ≤ 1) (hact : ∀ a s, proto.check a s = true → I s → I (proto.act a s))
    (hother : ∀ e s, I s → I (proto.other e s))
    (hstable : ∀ a e s, proto.check a s = true → proto.check a (proto.other e s) = true)
    (steps : List (RaceStep α ε)) (hs : I s) : I (run proto n steps s).shared := by
  refine (List.foldlRecOn (motive := fun r : Race σ α => I r.shared ∧ r.checked.length ≤ 1 ∧
    ∀ a ∈ r.checked, proto.check a r.shared = true) steps (step proto n)
      ⟨hs, Nat.zero_le _, by simp⟩
    fun r h e _ => ?_).1
  obtain ⟨hI, hone, hchecked⟩ := h
  cases e with
  | check a =>
    dsimp only [step]
    split
    next h =>
      have hnil : r.checked = [] := List.eq_nil_of_length_eq_zero (by omega)
      simpa [hnil] using ⟨hI, h.2⟩
    next => exact ⟨hI, hone, hchecked⟩
  | act i =>
    dsimp only [step]
    split
    next a ha =>
      have hrest := List.length_eraseIdx_of_lt (List.getElem?_eq_some_iff.1 ha).1
      rw [List.eq_nil_of_length_eq_zero (l := r.checked.eraseIdx i) (by omega)]
      exact ⟨hact a _ (hchecked a (List.mem_of_getElem? ha)) hI, Nat.zero_le _, by simp⟩
    next => exact ⟨hI, hone, hchecked⟩
  | other e => exact ⟨hother e _ hI, hone, fun a ha => hstable a e _ (hchecked a ha)⟩

theorem run_both (hn : 1 < n) {a b : α} (ha : proto.check a s = true)
    (hb : proto.check b s = true) :
    run proto n [.check a, .check b, .act 0, .act 0] s = ⟨proto.act b (proto.act a s), []⟩ := by
  simp [run, step, ha, hb, hn, Nat.zero_lt_of_lt hn]

end Race

end Nozdormu.Data
