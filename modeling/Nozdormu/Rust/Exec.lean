import Mathlib.Algebra.Ring.Int.Defs
import Mathlib.Algebra.Ring.Nat
import Mathlib.Data.List.Basic
import Mathlib.Data.List.Forall2
import Mathlib.Tactic.Common

/-!
# Rust computations: results, errors and faults

A Rust function of the proxy either returns, returns an `Err`, or stops the
thread: an arithmetic overflow, a slice or index out of range, a division by
zero, a loop that never ends. `Exec ε` is `Except` over these two kinds of
stop, so that a claim "never panics" is a statement about values
(`NoFault`) and not about the host.
-/

namespace Nozdormu.Rust

open List

/-- How the crate was built: `dev` panics on overflow, `release` wraps. -/
inductive Profile where
  | dev
  | release
deriving DecidableEq, Repr

inductive Fault where
  /-- `+`, `-` or `*` left the range of its type -/
  | overflow
  /-- `&xs[a..b]` with `a > b` or `b > len` -/
  | slice
  /-- `xs[i]` with `i ≥ len` -/
  | index
  /-- `/` or `%` by zero -/
  | divZero
  /-- `unwrap` of a `None` -/
  | unwrap
  /-- a loop used up its step bound -/
  | hang
deriving DecidableEq, Repr

/-- The two ways not to return a value: an `Err`, or a fault. -/
inductive Stop (ε : Type) where
  | err (e : ε)
  | fault (f : Fault)
deriving DecidableEq, Repr

/-- A Rust computation returning `α` or an `Err ε`. -/
abbrev Exec (ε : Type) : Type → Type := Except (Stop ε)

variable {ε δ α β : Type}

/-- `return Err(e)`. -/
def fail (e : ε) : Exec ε α := .error (.err e)

/-- A panic. -/
def crash (f : Fault) : Exec ε α := .error (.fault f)

/-- `if !c { return Err(e) }`. -/
def ensure (c : Prop) [Decidable c] (e : ε) : Exec ε Unit := if c then .ok () else fail e

/-- `map_err`: the `From` conversion that `?` applies to an error. -/
def mapErr (f : ε → δ) : Exec ε α → Exec δ α
  | .ok a => .ok a
  | .error (.err e) => .error (.err (f e))
  | .error (.fault k) => .error (.fault k)

namespace Profile

/-- What an out-of-range result becomes: a panic, or the wrapped value. -/
def wrap (p : Profile) (v : Nat) : Exec ε Nat :=
  match p with
  | .dev => crash .overflow
  | .release => .ok v

/-- `a + b` on an unsigned `w`-bit type. -/
def add (p : Profile) (w a b : Nat) : Exec ε Nat :=
  if a + b < 2 ^ w then .ok (a + b) else p.wrap ((a + b) % 2 ^ w)

/-- `a - b` on an unsigned `w`-bit type. -/
def sub (p : Profile) (w a b : Nat) : Exec ε Nat :=
  if b ≤ a then .ok (a - b) else p.wrap ((2 ^ w + a - b) % 2 ^ w)

/-- `a * b` on an unsigned `w`-bit type. -/
def mul (p : Profile) (w a b : Nat) : Exec ε Nat :=
  if a * b < 2 ^ w then .ok (a * b) else p.wrap ((a * b) % 2 ^ w)

/-- A signed `w`-bit `+`, `-` or `*` whose exact result is `v`. -/
def signed (p : Profile) (w : Nat) (v : Int) : Exec ε Int :=
  if -2 ^ (w - 1) ≤ v ∧ v < 2 ^ (w - 1) then .ok v
  else
    match p with
    | .dev => crash .overflow
    | .release => .ok (v.bmod (2 ^ w))

end Profile

/-- `a / b`; both profiles panic on `b = 0`. -/
def udiv (a b : Nat) : Exec ε Nat :=
  if b = 0 then crash .divZero else .ok (a / b)

/-- `a % b`; both profiles panic on `b = 0`. -/
def umod (a b : Nat) : Exec ε Nat :=
  if b = 0 then crash .divZero else .ok (a % b)

/-- `xs[i]`. -/
def index (xs : List α) (i : Nat) : Exec ε α :=
  match xs[i]? with
  | some a => .ok a
  | none => crash .index

/-- `&xs[a..b]`. -/
def slice (xs : List α) (a b : Nat) : Exec ε (List α) :=
  if a ≤ b ∧ b ≤ xs.length then .ok ((xs.drop a).take (b - a)) else crash .slice

/-- `a.saturating_mul(b)` on an unsigned `w`-bit type. -/
def saturatingMul (w a b : Nat) : Nat := min (a * b) (2 ^ w - 1)

/-! ## Running a `do` block -/

@[simp] theorem ok_bind (a : α) (f : α → Exec ε β) : (Except.ok a >>= f) = f a := rfl

@[simp] theorem error_bind (s : Stop ε) (f : α → Exec ε β) :
    ((Except.error s : Exec ε α) >>= f) = .error s := rfl

@[simp] theorem fail_bind (e : ε) (f : α → Exec ε β) : ((fail e : Exec ε α) >>= f) = fail e := rfl

@[simp] theorem crash_bind (k : Fault) (f : α → Exec ε β) :
    ((crash k : Exec ε α) >>= f) = crash k := rfl

@[simp] theorem pure_eq_ok (a : α) : (pure a : Exec ε α) = .ok a := rfl

@[simp] theorem fail_ne_ok (e : ε) (a : α) : (fail e : Exec ε α) ≠ .ok a := nofun

@[simp] theorem crash_ne_ok (k : Fault) (a : α) : (crash k : Exec ε α) ≠ .ok a := nofun

theorem ok_unique {σ : Type} {x : Except σ α} {a b : α} (ha : x = .ok a) (hb : x = .ok b) : a = b :=
  Except.ok.inj (ha.symm.trans hb)

theorem ok_pair_inj {a a' : α} {b b' : β} (h : (.ok (a, b) : Exec ε (α × β)) = .ok (a', b')) :
    a = a' ∧ b = b' := Prod.mk.inj (Except.ok.inj h)

variable {f : α → Exec ε β} {x : Exec ε α}

theorem bind_eq_ok {b : β} : (x >>= f) = .ok b ↔ ∃ a, x = .ok a ∧ f a = .ok b := by
  cases x with
  | ok | error => simp

theorem ensure_bind_eq_ok {c : Prop} [Decidable c] {e : ε} {f : Unit → Exec ε α} {a : α} :
    (ensure c e >>= f) = .ok a ↔ c ∧ f () = .ok a := by
  unfold ensure
  split
  next h => simp [h]
  next h => simp [h]

theorem eq_ok_of_toOption {a : α} (h : x.toOption = some a) : x = .ok a := by
  cases x with
  | error s => cases h
  | ok b => rw [Option.some.inj h]

/-- A computation that was evaluated, with what was found of its result. -/
theorem exists_of_any_toOption {q : α → Bool} (h : x.toOption.any q = true) :
    ∃ a, x = .ok a ∧ q a = true := by
  cases x with
  | error s => cases h
  | ok a => exact ⟨a, rfl, h⟩

theorem mapM_cons_eq_ok {a : α} {l : List α} {r : List β} :
    (a :: l).mapM f = .ok r ↔ ∃ b bs, f a = .ok b ∧ l.mapM f = .ok bs ∧ r = b :: bs := by
  rw [mapM_cons, bind_eq_ok]
  constructor
  · intro h
    obtain ⟨b, hb, h⟩ := h
    obtain ⟨bs, hbs, h⟩ := bind_eq_ok.1 h
    exact ⟨b, bs, hb, hbs, (Except.ok.inj h).symm⟩
  · rintro ⟨b, bs, hb, hbs, rfl⟩
    exact ⟨b, hb, bind_eq_ok.2 ⟨bs, hbs, rfl⟩⟩

theorem mapM_eq_ok_iff : ∀ {l : List α} {r : List β},
    l.mapM f = .ok r ↔ List.Forall₂ (fun a b => f a = .ok b) l r := by
  intro l
  induction l with
  | nil =>
    intro r
    rw [mapM_nil, forall₂_nil_left_iff]
    exact ⟨fun h => (Except.ok.inj h).symm, fun h => h ▸ rfl⟩
  | cons a l ih =>
    intro r
    rw [mapM_cons_eq_ok, forall₂_cons_left_iff]
    constructor
    · rintro ⟨b, bs, hb, hbs, rfl⟩
      exact ⟨b, bs, hb, ih.1 hbs, rfl⟩
    · rintro ⟨b, bs, hb, hbs, rfl⟩
      exact ⟨b, bs, hb, ih.2 hbs, rfl⟩

variable {R : α → β → Prop} {l : List α} {r : List β}

theorem exists_of_mem_left (h : List.Forall₂ R l r) {a : α} (ha : a ∈ l) : ∃ b ∈ r, R a b := by
  induction h with
  | nil => cases ha
  | cons hab _ ih =>
    rcases mem_cons.1 ha with rfl | ha
    · exact ⟨_, mem_cons_self, hab⟩
    · obtain ⟨b, hb, hR⟩ := ih ha
      exact ⟨b, mem_cons_of_mem _ hb, hR⟩

theorem exists_of_mem_right (h : List.Forall₂ R l r) {b : β}
    (hb : b ∈ r) : ∃ a ∈ l, R a b := exists_of_mem_left h.flip hb

theorem mem_of_mapM_ok {l : List α} {r : List β} (h : l.mapM f = .ok r) {a : α} (ha : a ∈ l) :
    ∃ b ∈ r, f a = .ok b := exists_of_mem_left (mapM_eq_ok_iff.1 h) ha

/-- The results of a computation over a list are the results of its elements. -/
theorem mem_iff_of_mapM {l : List α} {r : List β} (h : l.mapM f = .ok r) {b : β} :
    b ∈ r ↔ ∃ a ∈ l, f a = .ok b := by
  refine ⟨exists_of_mem_right (mapM_eq_ok_iff.1 h), ?_⟩
  rintro ⟨a, ha, hb⟩
  obtain ⟨b', hb', hf⟩ := mem_of_mapM_ok h ha
  exact Except.ok.inj (hb.symm.trans hf) ▸ hb'

/-! ## Arithmetic in range -/

variable {w a b : Nat} (p : Profile)

theorem add_ok (h : a + b < 2 ^ w) : (p.add w a b : Exec ε Nat) = .ok (a + b) := if_pos h

theorem sub_ok (w : Nat) (h : b ≤ a) : (p.sub w a b : Exec ε Nat) = .ok (a - b) := if_pos h

theorem mul_ok (h : a * b < 2 ^ w) : (p.mul w a b : Exec ε Nat) = .ok (a * b) := if_pos h

theorem signed_ok {v : Int} (h : -2 ^ (w - 1) ≤ v ∧ v < 2 ^ (w - 1)) :
    (p.signed w v : Exec ε Int) = .ok v := if_pos h

theorem udiv_ok (h : b ≠ 0) : (udiv a b : Exec ε Nat) = .ok (a / b) := if_neg h

theorem umod_ok (h : b ≠ 0) : (umod a b : Exec ε Nat) = .ok (a % b) := if_neg h

theorem index_ok {xs : List α} {i : Nat} (h : i < xs.length) :
    (index xs i : Exec ε α) = .ok xs[i] := by
  simp [index, List.getElem?_eq_getElem h]

theorem slice_ok {xs : List α} (hab : a ≤ b) (hb : b ≤ xs.length) :
    (slice xs a b : Exec ε (List α)) = .ok ((xs.drop a).take (b - a)) := if_pos ⟨hab, hb⟩

variable {c : Nat}

/-- Whether or not it wraps, a sum that is returned is right modulo `2 ^ w`. -/
theorem eq_mod_of_add_eq_ok {p : Profile}
    (h : (p.add w a b : Exec ε Nat) = .ok c) : c = (a + b) % 2 ^ w := by
  unfold Profile.add at h
  split at h
  next hlt => rw [Nat.mod_eq_of_lt hlt, Except.ok.inj h]
  cases p with
  | dev => cases h
  | release => exact (Except.ok.inj h).symm

theorem release_add (w a b : Nat) :
    (Profile.release.add w a b : Exec ε Nat) = .ok ((a + b) % 2 ^ w) := by
  unfold Profile.add
  split
  next h => rw [Nat.mod_eq_of_lt h]
  next => rfl

/-- Adding up a list is one addition: no check is passed that the last one would not pass. -/
theorem foldlM_add {f : α → Nat} (p : Profile) : ∀ (l : List α) {n : Nat}, n < 2 ^ w →
    (l.foldlM (fun acc a => p.add w acc (f a)) n : Exec ε Nat) = p.add w n (l.map f).sum := by
  intro l
  induction l with
  | nil => intro n hn; exact (add_ok (b := 0) p hn).symm
  | cons a l ih =>
    intro n hn
    rw [foldlM_cons, map_cons, sum_cons]
    cases p with
    | release =>
      rw [release_add, ok_bind, ih (Nat.mod_lt _ (Nat.two_pow_pos w)), release_add, release_add,
        Nat.mod_add_mod, Nat.add_assoc]
    | dev =>
      by_cases h : n + f a < 2 ^ w
      · rw [add_ok .dev h, ok_bind, ih h, Profile.add, Profile.add, Nat.add_assoc]
      · rw [Profile.add, Profile.add, if_neg h, if_neg (by omega)]
        rfl

/-- In either profile a sum stays in the range of its type. -/
theorem lt_of_add_eq_ok {p : Profile} (h : (p.add w a b : Exec ε Nat) = .ok c) : c < 2 ^ w :=
  eq_mod_of_add_eq_ok h ▸ Nat.mod_lt _ (Nat.two_pow_pos w)

theorem lt_of_sub_eq_ok {p : Profile} (h : (p.sub w a b : Exec ε Nat) = .ok c)
    (ha : a < 2 ^ w) : c < 2 ^ w := by
  unfold Profile.sub at h
  split at h
  · have := Except.ok.inj h
    omega
  cases p with
  | dev => cases h
  | release => exact Except.ok.inj h ▸ Nat.mod_lt _ (Nat.two_pow_pos w)

/-! ## Computations that do not fault -/

/-- The computation returns or returns an `Err`. -/
def NoFault (x : Exec ε α) : Prop := ∀ k, x ≠ .error (.fault k)

@[simp] theorem noFault_ok (a : α) : NoFault (.ok a : Exec ε α) := by
  intro k h; cases h

@[simp] theorem noFault_fail (e : ε) : NoFault (fail e : Exec ε α) := by
  intro k h; cases h

@[simp] theorem noFault_err (e : ε) : NoFault (.error (.err e) : Exec ε α) := by
  intro k h; cases h

@[simp] theorem noFault_crash (k : Fault) : ¬ NoFault (crash k : Exec ε α) :=
  fun h => h k rfl

theorem noFault_bind : NoFault (x >>= f) ↔ NoFault x ∧ ∀ a, x = .ok a → NoFault (f a) := by
  rcases x with (e | k) | a
  · simp
  · exact ⟨fun h => absurd rfl (h k), fun h => absurd rfl (h.1 k)⟩
  · simp

theorem NoFault.bind (hx : NoFault x) (hf : ∀ a, NoFault (f a)) :
    NoFault (x >>= f) := noFault_bind.2 ⟨hx, fun a _ => hf a⟩

/-- The computation returned a value. -/
def Returns (x : Exec ε α) : Prop := ∃ a, x = .ok a

theorem Returns.noFault (h : Returns x) : NoFault x := by
  obtain ⟨a, rfl⟩ := h
  exact noFault_ok a

theorem Returns.bind (hx : Returns x)
    (hf : ∀ a, x = .ok a → Returns (f a)) : Returns (x >>= f) := by
  obtain ⟨a, ha⟩ := hx
  rw [ha]
  exact hf a ha

/-- Without overflow checks arithmetic always goes on. -/
theorem returns_release_add (w a b : Nat) : Returns (Profile.release.add w a b : Exec ε Nat) :=
  ⟨_, release_add w a b⟩

theorem returns_release_sub (w a b : Nat) : Returns (Profile.release.sub w a b : Exec ε Nat) := by
  unfold Profile.sub
  split <;> exact ⟨_, rfl⟩

theorem returns_release_mul (w a b : Nat) : Returns (Profile.release.mul w a b : Exec ε Nat) := by
  unfold Profile.mul
  split <;> exact ⟨_, rfl⟩

theorem returns_mapM : ∀ {l : List α}, Returns (l.mapM f) ↔ ∀ a ∈ l, Returns (f a) := by
  intro l
  induction l with
  | nil => exact iff_of_true ⟨[], rfl⟩ (by simp)
  | cons a l ih =>
    rw [forall_mem_cons, ← ih]
    constructor
    · rintro ⟨r, hr⟩
      obtain ⟨b, bs, hb, hbs, -⟩ := mapM_cons_eq_ok.1 hr
      exact ⟨⟨b, hb⟩, ⟨bs, hbs⟩⟩
    · rintro ⟨⟨b, hb⟩, ⟨bs, hbs⟩⟩
      exact ⟨b :: bs, mapM_cons_eq_ok.2 ⟨b, bs, hb, hbs, rfl⟩⟩

/-- Sequencing, with the conditions of the two parts already known. -/
theorem noFault_bind_iff {P Q : Prop} (hx : NoFault x ↔ P)
    (hf : ∀ a, x = .ok a → (NoFault (f a) ↔ Q)) :
    NoFault (x >>= f) ↔ P ∧ (Returns x → Q) := by
  rw [noFault_bind, hx]
  refine and_congr_right fun _ => ?_
  constructor
  · intro h hx
    rcases hx with ⟨a, ha⟩
    exact (hf a ha).1 (h a ha)
  · intro h a ha
    exact (hf a ha).2 (h ⟨a, ha⟩)

theorem noFault_dev_add : NoFault (Profile.dev.add w a b : Exec ε Nat) ↔ a + b < 2 ^ w := by
  unfold Profile.add Profile.wrap
  split <;> simp_all

theorem noFault_dev_sub : NoFault (Profile.dev.sub w a b : Exec ε Nat) ↔ b ≤ a := by
  unfold Profile.sub Profile.wrap
  split <;> simp_all

theorem noFault_ensure_bind {c : Prop} [Decidable c] {e : ε} {f : Unit → Exec ε α} :
    NoFault (ensure c e >>= f) ↔ (c → NoFault (f ())) := by
  unfold ensure
  by_cases hc : c
  · rw [if_pos hc]
    exact (imp_iff_right hc).symm
  · rw [if_neg hc]
    exact iff_of_true (noFault_fail e) fun h => absurd h hc

/-- A guard that refuses a request never faults; past it the rest must not. -/
theorem noFault_guard {c : Prop} [Decidable c] {e : ε} :
    NoFault (if c then fail e else x) ↔ (¬ c → NoFault x) := by
  by_cases hc : c
  · rw [if_pos hc]
    exact iff_of_true (noFault_fail e) fun h => absurd hc h
  · rw [if_neg hc]
    exact (imp_iff_right hc).symm

theorem noFault_dev_mul : NoFault (Profile.dev.mul w a b : Exec ε Nat) ↔ a * b < 2 ^ w := by
  unfold Profile.mul Profile.wrap
  split <;> simp_all

theorem noFault_slice {xs : List α} : NoFault (slice xs a b : Exec ε (List α)) ↔ a ≤ b ∧
    b ≤ xs.length := by
  unfold slice
  split <;> simp_all

/-! ## Computations without errors of their own

Much code has no `Err` to return: it returns a value or faults. `ReturnsIff x P` says that of
`x`, with the condition under which it returns; the rules below find the condition of a `do`
block from those of its steps. -/

/-- `x` returns a value if `P` holds and faults otherwise. -/
structure ReturnsIff (x : Exec ε α) (P : Prop) : Prop where
  of_noFault : NoFault x → P
  returns : P → Returns x

namespace ReturnsIff

variable {x : Exec ε α} {P Q : Prop}

theorem noFault_iff (h : ReturnsIff x P) : NoFault x ↔ P :=
  ⟨h.of_noFault, fun hp => (h.returns hp).noFault⟩

theorem returns_iff (h : ReturnsIff x P) : Returns x ↔ P :=
  ⟨fun hx => h.of_noFault hx.noFault, h.returns⟩

theorem congr (h : ReturnsIff x P) (hPQ : P ↔ Q) : ReturnsIff x Q :=
  ⟨fun hx => hPQ.1 (h.of_noFault hx), fun hq => h.returns (hPQ.2 hq)⟩

theorem of_eq_ok {a : α} (hx : x = .ok a) (hp : P) : ReturnsIff x P :=
  ⟨fun _ => hp, fun _ => ⟨a, hx⟩⟩

theorem bind {R : α → Prop} (hx : ReturnsIff x P) (hf : ∀ a, x = .ok a → ReturnsIff (f a) (R a)) :
    ReturnsIff (x >>= f) (P ∧ ∀ a, x = .ok a → R a) where
  of_noFault h := by
    obtain ⟨hx', hf'⟩ := noFault_bind.1 h
    exact ⟨hx.of_noFault hx', fun a ha => (hf a ha).of_noFault (hf' a ha)⟩
  returns h := by
    obtain ⟨a, ha⟩ := hx.returns h.1
    obtain ⟨b, hb⟩ := (hf a ha).returns (h.2 a ha)
    exact ⟨b, bind_eq_ok.2 ⟨a, ha, hb⟩⟩

theorem bind_const (hx : ReturnsIff x P)
    (hf : ∀ a, x = .ok a → ReturnsIff (f a) Q) : ReturnsIff (x >>= f) (P ∧ Q) := by
  refine (hx.bind hf).congr (and_congr_right fun hp => ?_)
  obtain ⟨a, ha⟩ := hx.returns hp
  exact ⟨fun h => h a ha, fun h _ _ => h⟩

theorem ite {c : Prop} [Decidable c] {a : α} (hx : c → ReturnsIff x P) :
    ReturnsIff (if c then x else pure a) (c → P) := by
  split
  next hc => exact (hx hc).congr (imp_iff_right hc).symm
  next hc => exact of_eq_ok rfl fun h => absurd h hc

theorem map (hx : ReturnsIff x P) (g : α → β) : ReturnsIff (x >>= fun a => pure (g a)) P :=
  (hx.bind_const fun _ _ => of_eq_ok rfl trivial).congr (and_iff_left trivial)

theorem mapM {R : α → Prop} : ∀ {l : List α},
    (∀ a ∈ l, ReturnsIff (f a) (R a)) → ReturnsIff (l.mapM f) (∀ a ∈ l, R a) := by
  intro l
  induction l with
  | nil => intro _; exact of_eq_ok mapM_nil (by simp)
  | cons a l ih =>
    intro h
    obtain ⟨ha, hl⟩ := forall_mem_cons.1 h
    rw [mapM_cons]
    refine (ha.bind_const fun b _ => (ih hl).map (b :: ·)).congr ?_
    exact (forall_mem_cons ).symm

end ReturnsIff

/-- `x` returns a value if `P` holds, the value then satisfies `Q`, and `x` faults otherwise. -/
structure Spec (x : Exec ε α) (P : Prop) (Q : α → Prop) : Prop extends ReturnsIff x P where
  value : ∀ a, x = .ok a → Q a

namespace Spec

variable {x : Exec ε α} {P P' : Prop} {Q : α → Prop}

theorem of_ok {a : α} (hx : x = .ok a) (hp : P) (hq : Q a) : Spec x P Q where
  toReturnsIff := .of_eq_ok hx hp
  value _ hb := Except.ok.inj (hx.symm.trans hb) ▸ hq

theorem of_fault (hx : ¬ NoFault x) (hp : ¬ P) : Spec x P Q where
  of_noFault h := absurd h hx
  returns h := absurd h hp
  value a ha := absurd (Returns.noFault ⟨a, ha⟩) hx

theorem of_eq {a : α} (hok : P → x = .ok a) (hfault : NoFault x → P) : Spec x P fun b => b = a where
  of_noFault := hfault
  returns h := ⟨a, hok h⟩
  value b hb := Except.ok.inj (hb.symm.trans (hok (hfault (Returns.noFault ⟨b, hb⟩))))

theorem eq_ok_iff {a b : α} (h : Spec x P fun b => b = a) : x = .ok b ↔ P ∧ b = a := by
  constructor
  · intro hb
    exact ⟨h.returns_iff.1 ⟨b, hb⟩, h.value b hb⟩
  · rintro ⟨hp, rfl⟩
    obtain ⟨c, hc⟩ := h.returns hp
    rw [hc, h.value c hc]

theorem congr (h : Spec x P Q) (hp : P ↔ P') : Spec x P' Q :=
  ⟨h.toReturnsIff.congr hp, h.value⟩

theorem bind_eq {a : α} {R : Prop} {S : β → Prop}
    (hx : Spec x P fun b => b = a) (hf : P → Spec (f a) R S) : Spec (x >>= f) (P ∧ R) S := by
  by_cases hp : P
  · obtain ⟨b, hb⟩ := hx.returns hp
    obtain rfl := hx.value b hb
    rw [hb]
    exact (hf hp).congr (and_iff_right hp).symm
  · exact of_fault (fun h => hp (hx.of_noFault (noFault_bind.1 h).1)) fun h => hp h.1

theorem bind_returnsIff {a : α} {R : Prop} (hx : Spec x P fun b => b = a)
    (hf : P → ReturnsIff (f a) R) : ReturnsIff (x >>= f) (P ∧ R) :=
  (hx.bind_eq fun hp => (⟨hf hp, fun _ _ => trivial⟩ : Spec (f a) R fun _ => True)).toReturnsIff

end Spec

theorem spec_add : Spec (Profile.dev.add w a b : Exec ε Nat) (a + b < 2 ^ w) fun c => c = a + b :=
  .of_eq (add_ok .dev) noFault_dev_add.1

theorem spec_mul : Spec (Profile.dev.mul w a b : Exec ε Nat) (a * b < 2 ^ w) fun c => c = a * b :=
  .of_eq (mul_ok .dev) noFault_dev_mul.1

theorem spec_sub : Spec (Profile.dev.sub w a b : Exec ε Nat) (b ≤ a) fun c => c = a - b :=
  .of_eq (sub_ok .dev w) noFault_dev_sub.1

theorem dev_add_eq_ok : (Profile.dev.add w a b : Exec ε Nat) = .ok c ↔ a + b < 2 ^ w ∧ c = a + b :=
  spec_add.eq_ok_iff

theorem returnsIff_add :
    ReturnsIff (Profile.dev.add w a b : Exec ε Nat) (a + b < 2 ^ w) := spec_add.toReturnsIff

/-- `a + b + c`: the last sum bounds the first. -/
theorem returnsIff_add_add :
    ReturnsIff (Profile.dev.add w a b >>= fun x => Profile.dev.add w x c : Exec ε Nat)
      (a + b + c < 2 ^ w) := by
  refine ReturnsIff.congr (spec_add.bind_returnsIff fun _ => ?_) (and_iff_right_of_imp fun h => ?_)
  · exact returnsIff_add
  · omega

/-- `a * b + c + d`, likewise. -/
theorem returnsIff_mul_add_add {d : Nat} :
    ReturnsIff (Profile.dev.mul w a b >>= fun x => Profile.dev.add w x c >>= fun y =>
      Profile.dev.add w y d : Exec ε Nat) (a * b + c + d < 2 ^ w) := by
  refine (spec_mul.bind_returnsIff fun _ => returnsIff_add_add).congr
    (and_iff_right_of_imp fun h => ?_)
  omega

/-- `c + a * b`, with both operations checked. -/
theorem spec_mul_add : Spec (Profile.dev.mul w a b >>= fun m => Profile.dev.add w c m : Exec ε Nat)
      (c + a * b < 2 ^ w) fun r => r = c + a * b := by
  refine (spec_mul.bind_eq fun _ => spec_add).congr (and_iff_right_of_imp fun h => ?_)
  omega

theorem returnsIff_sub : ReturnsIff (Profile.dev.sub w a b : Exec ε Nat) (b ≤ a) :=
    spec_sub.toReturnsIff

theorem returnsIff_signed {v : Int} :
    ReturnsIff (Profile.dev.signed w v : Exec ε Int) (-2 ^ (w - 1) ≤ v ∧ v < 2 ^ (w - 1)) := by
  unfold Profile.signed
  split
  next hfits => exact .of_eq_ok rfl hfits
  next hnot => exact ⟨fun h => absurd h (noFault_crash _), fun h => absurd h hnot⟩

/-! ## The two builds of a computation

`f p` is a computation with its arithmetic taken from the profile. Where the checked build
does not stop, both builds take the same steps, and the optimised one never stops. -/

/-- An optimised build returns a value, and every value a checked build returns. -/
structure Relaxed (f : Profile → Exec ε α) : Prop where
  returns : Returns (f .release)
  agrees : ∀ a, f .dev = .ok a → f .release = .ok a

namespace Relaxed

variable {f f' : Profile → Exec ε α}

theorem const (a : α) : Relaxed fun _ => (.ok a : Exec ε α) := ⟨⟨a, rfl⟩, fun _ h => h⟩

theorem bind {g : Profile → α → Exec ε β} (hf : Relaxed f)
    (hg : ∀ a, f .release = .ok a → Relaxed fun p => g p a) : Relaxed fun p => f p >>= g p where
  returns := hf.returns.bind fun a ha => (hg a ha).returns
  agrees b h := by
    obtain ⟨a, ha, hb⟩ := bind_eq_ok.1 h
    have ha := hf.agrees a ha
    exact bind_eq_ok.2 ⟨a, ha, (hg a ha).agrees b hb⟩

theorem map (hf : Relaxed f) (g : α → β) : Relaxed fun p => f p >>= fun a => pure (g a) :=
  hf.bind fun a _ => const (g a)

theorem ite {c : Prop} [Decidable c] (hf : c → Relaxed f) (hf' : ¬ c → Relaxed f') :
    Relaxed fun p => if c then f p else f' p := by
  split
  next h => exact hf h
  next h => exact hf' h

theorem add (w a b : Nat) : Relaxed fun p => (p.add w a b : Exec ε Nat) where
  returns := returns_release_add w a b
  agrees c h := by
    obtain ⟨hlt, rfl⟩ := dev_add_eq_ok.1 h
    exact add_ok .release hlt

theorem sub (w a b : Nat) : Relaxed fun p => (p.sub w a b : Exec ε Nat) where
  returns := returns_release_sub w a b
  agrees c h := by
    obtain ⟨hle, rfl⟩ := spec_sub.eq_ok_iff.1 h
    exact sub_ok .release w hle

theorem mul (w a b : Nat) : Relaxed fun p => (p.mul w a b : Exec ε Nat) where
  returns := returns_release_mul w a b
  agrees c h := by
    obtain ⟨hlt, rfl⟩ := spec_mul.eq_ok_iff.1 h
    exact mul_ok .release hlt

end Relaxed
end Nozdormu.Rust
