import Nozdormu.Rust.Task

/-!
# Pre- and postconditions of async functions

`Ensures serve P t Q`: if `t` starts with `P` and returns, it returns with `Q`. A panic ensures
anything. The rules follow the way a function is put together: one for each kind of node, one for
sequencing, one for a loop over a list.
-/

namespace Nozdormu.Rust.Task

variable {ι : Type} {res : ι → Type} {α β σ : Type} {serve : (c : ι) → σ → res c × σ}

def Ensures (serve : (c : ι) → σ → res c × σ) (P : σ → Prop) (t : Task ι res α)
    (Q : α → σ → Prop) : Prop :=
  ∀ s a s', P s → t.run serve s = (.ok a, s') → Q a s'

variable {P P' : σ → Prop} {Q Q' : α → σ → Prop} {R : β → σ → Prop}

theorem Ensures.mono {t : Task ι res α} (h : Ensures serve P t Q) (hpre : ∀ s, P' s → P s)
    (hpost : ∀ a s, Q a s → Q' a s) : Ensures serve P' t Q' :=
  fun s a s' hs hrun => hpost a s' (h s a s' (hpre s hs) hrun)

theorem ensures_done {a : α} (h : ∀ s, P s → Q a s) :
    Ensures serve P (done a : Task ι res α) Q := by
  intro s b s' hs hrun
  obtain ⟨hb, rfl⟩ := Prod.mk.inj hrun
  rw [← Except.ok.inj hb]
  exact h s hs

theorem ensures_crash (k : Fault) : Ensures serve P (crash k : Task ι res α) Q := by
  intro s b s' _ hrun
  cases (Prod.mk.inj hrun).1

theorem ensures_perform_bind {c : ι} {f : res c → Task ι res α} {M : res c → σ → Prop}
    (hcall : ∀ s, P s → M (serve c s).1 (serve c s).2) (hnext : ∀ r, Ensures serve (M r) (f r) Q) :
    Ensures serve P (perform c >>= f) Q := by
  intro s a s' hs hrun
  exact hnext _ _ a s' (hcall s hs) hrun

theorem Ensures.bind {t : Task ι res β} {f : β → Task ι res α} (h : Ensures serve P t R)
    (hf : ∀ b, Ensures serve (R b) (f b) Q) : Ensures serve P (t >>= f) Q := by
  induction t generalizing P with
  | done b =>
    intro s a s' hs hrun
    exact hf b s a s' (h s b s hs rfl) hrun
  | crash k => exact ensures_crash k
  | call c next ih =>
    intro s a s' hs hrun
    refine ih (serve c s).1 ?_ _ a s' rfl hrun
    intro s₁ b s₂ hs₁ hrun'
    subst hs₁
    exact h s b s₂ hs hrun'

theorem ensures_ofExec_bind {x : Exec Empty β} {f : β → Task ι res α}
    (h : ∀ b, x = .ok b → Ensures serve P (f b) Q) : Ensures serve P (ofExec x >>= f) Q := by
  cases x with
  | ok b => exact h b rfl
  | error e =>
    cases e with
    | err e => cases e
    | fault k => exact ensures_crash k

/-- What every call keeps is there afterwards. -/
theorem ensures_of_only {C : ι → Prop} {t : Task ι res α} (h : t.Only C)
    (hserve : ∀ c s, C c → P s → P (serve c s).2) : Ensures serve P t fun _ => P := by
  intro s a s' hs hrun
  have hkept := run_keeps hserve h hs
  rwa [hrun] at hkept

end Nozdormu.Rust.Task
