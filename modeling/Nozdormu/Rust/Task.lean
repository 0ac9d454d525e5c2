import Nozdormu.Rust.Exec

/-!
# Async functions that call services

An async function that talks to stores is a tree: it has returned, it has panicked, or it awaits
the answer to a call and goes on from there. The tree does not say who answers: `run` serves one
call after the other from a state, and another reader can let calls fail or interleave them.
-/

namespace Nozdormu.Rust

/-- A function that makes calls `ι`, answered by values of the type of each, and returns `α`. -/
inductive Task (ι : Type) (res : ι → Type) (α : Type) where
  | done (a : α)
  | crash (f : Fault)
  | call (c : ι) (next : res c → Task ι res α)

namespace Task

variable {ι : Type} {res : ι → Type} {α β σ : Type}

def bind : Task ι res α → (α → Task ι res β) → Task ι res β
  | done a, f => f a
  | crash k, _ => crash k
  | call c next, f => call c fun r => (next r).bind f

instance : Monad (Task ι res) where
  pure := done
  bind := bind

/-- Await one answer. -/
def perform (c : ι) : Task ι res (res c) := call c done

/-- A computation without calls. -/
def ofExec : Exec Empty α → Task ι res α
  | .ok a => done a
  | .error (.fault f) => crash f

/-- Serve the calls in order. -/
def run (serve : (c : ι) → σ → res c × σ) : Task ι res α → σ → Except Fault α × σ
  | done a, s => (.ok a, s)
  | crash f, s => (.error f, s)
  | call c next, s => run serve (next (serve c s).1) (serve c s).2

variable {serve : (c : ι) → σ → res c × σ}

@[simp] theorem pure_eq_done (a : α) : (pure a : Task ι res α) = done a := rfl

@[simp] theorem done_bind (a : α) (f : α → Task ι res β) : (done a >>= f) = f a := rfl

@[simp] theorem crash_bind (k : Fault) (f : α → Task ι res β) : (crash k >>= f) = crash k := rfl

@[simp] theorem perform_bind (c : ι) (f : res c → Task ι res β) :
    (perform c >>= f) = call c f := rfl

@[simp] theorem run_done (a : α) (s : σ) : (done a : Task ι res α).run serve s = (.ok a, s) := rfl

@[simp] theorem run_crash (k : Fault) (s : σ) :
    (crash k : Task ι res α).run serve s = (.error k, s) := rfl

@[simp] theorem run_call (c : ι) (next : res c → Task ι res α) (s : σ) :
    (call c next).run serve s = (next (serve c s).1).run serve (serve c s).2 := rfl

variable {f : α → Task ι res β}

theorem run_bind_of_ok {a : α} : ∀ {t : Task ι res α} {s s' : σ},
    t.run serve s = (.ok a, s') → (t >>= f).run serve s = (f a).run serve s' := by
  intro t
  induction t with
  | done b =>
    intro s s' h
    obtain ⟨hb, rfl⟩ := Prod.mk.inj h
    rw [← Except.ok.inj hb]
    rfl
  | crash k =>
    intro s s' h
    cases (Prod.mk.inj h).1
  | call c next ih =>
    intro s s' h
    exact ih _ h

theorem run_map (g : α → β) : ∀ (t : Task ι res α) (s : σ),
    (t >>= fun a => done (g a)).run serve s = ((t.run serve s).1.map g, (t.run serve s).2) := by
  intro t
  induction t with
  | done | crash => intro s; rfl
  | call c next ih => intro s; exact ih _ _

/-! ## The calls of a function -/

/-- Whatever the answers are, the function makes only calls with `P`. -/
def Only (P : ι → Prop) : Task ι res α → Prop
  | done _ => True
  | crash _ => True
  | call c next => P c ∧ ∀ r, Only P (next r)

variable {P : ι → Prop}

theorem only_perform_bind {c : ι} {f : res c → Task ι res α} (h : P c) (hf : ∀ r, (f r).Only P) :
    (perform c >>= f).Only P := ⟨h, hf⟩

theorem only_ofExec (x : Exec Empty α) : (ofExec x : Task ι res α).Only P := by
  cases x with
  | ok a => trivial
  | error e =>
    cases e with
    | err e => cases e
    | fault f => trivial

theorem only_ofExec_bind {x : Exec Empty α} (h : ∀ a, x = .ok a → (f a).Only P) :
    (ofExec x >>= f).Only P := by
  cases x with
  | ok a => exact h a rfl
  | error e =>
    cases e with
    | err e => cases e
    | fault f => trivial

variable {t : Task ι res α}

theorem Only.mono {Q : ι → Prop} (h : t.Only P) (hPQ : ∀ c, P c → Q c) : t.Only Q := by
  induction t with
  | done | crash => trivial
  | call c next ih => exact ⟨hPQ c h.1, fun r => ih r (h.2 r)⟩

theorem Only.bind (h : t.Only P) (hf : ∀ a, (f a).Only P) : (t >>= f).Only P := by
  induction t with
  | done a => exact hf a
  | crash k => trivial
  | call c next ih => exact ⟨h.1, fun r => ih r (h.2 r)⟩

theorem Only.map (g : α → β) (h : t.Only P) :
    (t >>= fun a => done (g a)).Only P := h.bind fun _ => trivial

theorem only_forM {f : α → Task ι res PUnit} {l : List α} (h : ∀ a ∈ l, (f a).Only P) :
    (l.forM f).Only P := by
  induction l with
  | nil => trivial
  | cons a l ih =>
    refine (h a (List.mem_cons_self ..)).bind fun _ => ?_
    exact ih fun b hb => h b (List.mem_cons_of_mem _ hb)

/-! ## A larger service -/

section Embed

variable {κ τ : Type} {res' : κ → Type} (f : ι → κ) (answer : ∀ c, res' (f c) → res c)

/-- The same function, with its calls as calls of a service that answers more. -/
def embed : Task ι res α → Task κ res' α
  | done a => done a
  | crash k => crash k
  | call c next => call (f c) fun r => embed (next (answer c r))

/-- Where the larger service answers as the smaller one, so does the function. -/
theorem run_embed (serve : (c : ι) → σ → res c × σ) (serve' : (c : κ) → τ → res' c × τ) (g : σ → τ)
    (hserve : ∀ c s, answer c (serve' (f c) (g s)).1 = (serve c s).1 ∧
      (serve' (f c) (g s)).2 = g (serve c s).2) : ∀ (t : Task ι res α) (s : σ),
    (t.embed f answer).run serve' (g s) = ((t.run serve s).1, g (t.run serve s).2) := by
  intro t
  induction t with
  | done | crash => intro s; rfl
  | call c next ih =>
    intro s
    obtain ⟨hanswer, hstate⟩ := hserve c s
    rw [Task.embed, run_call, hanswer, hstate, ih, run_call]

end Embed

/-- What every call of a function keeps, the function keeps. -/
theorem run_keeps {I : σ → Prop} (hserve : ∀ c s, P c → I s → I (serve c s).2) :
    ∀ {t : Task ι res α} {s : σ}, t.Only P → I s → I (t.run serve s).2 := by
  intro t
  induction t with
  | done | crash => intro s _ hs; exact hs
  | call c next ih => intro s h hs; exact ih _ (h.2 _) (hserve c s h.1 hs)

theorem run_bind_keeps {I : σ → Prop} : ∀ {t : Task ι res α} {s : σ},
    I (t.run serve s).2 → (∀ a s', t.run serve s = (.ok a, s') → I s' → I ((f a).run serve s').2) →
      I ((t >>= f).run serve s).2 := by
  intro t
  induction t with
  | done a => intro s ht hf; exact hf a s rfl ht
  | crash k => intro s ht _; exact ht
  | call c next ih => intro s ht hf; exact ih _ ht hf

/-- From states that the calls of a function cannot tell apart, it returns the same. -/
theorem run_agree {R : σ → σ → Prop}
    (hserve : ∀ c s s', P c → R s s' → (serve c s).1 = (serve c s').1 ∧
      R (serve c s).2 (serve c s').2) :
    ∀ {t : Task ι res α} {s s' : σ}, t.Only P → R s s' →
    (t.run serve s).1 = (t.run serve s').1 := by
  intro t
  induction t with
  | done | crash => intro s s' _ _; rfl
  | call c next ih =>
    intro s s' h hs
    obtain ⟨hanswer, hstate⟩ := hserve c s s' h.1 hs
    rw [run_call, run_call, hanswer]
    exact ih _ (h.2 _) hstate

end Task

end Nozdormu.Rust
