import Nozdormu.Balancer.Traffic
import Mathlib.Data.List.DropRight
import Mathlib.Data.List.Infix

/-!
# The health of an origin, from its history

The health checker keeps two counts for each origin, and each resets the other.
`isHealthy_eq_decided` says what they come to: the status of an origin is the one that was fixed
last in its own history, by `set_status` or by a row of equal results that became as long as its
threshold.
-/

namespace Nozdormu.Balancer

open Rust HealthChecker List

inductive HealthEvent where
  /-- `record_success` or `record_failure` -/
  | result (success : Bool)
  | status (healthy : Bool)
deriving DecidableEq, Repr

def row (v : Bool) (own : List HealthEvent) : Nat := (own.rtakeWhile (· = .result v)).length

/-- The status that the last event of a history fixes. -/
def fixed (threshold : Bool → Nat) (own : List HealthEvent) : Option Bool :=
  match own.getLast? with
  | some (.status v) => some v
  | some (.result v) => if row v own = threshold v then some v else none
  | none => none

def decided (threshold : Bool → Nat) (own : List HealthEvent) : Bool :=
  (own.inits.reverse.findSome? (fixed threshold)).getD true

namespace HealthChecker

variable (self : HealthChecker)

def threshold (v : Bool) :
    Nat := if v then self.healthyThreshold.toNat else self.unhealthyThreshold.toNat

/-- An event at an origin of a site. -/
def hear (p : Profile) (self : HealthChecker) (e : (Str × Str) × HealthEvent) : HealthChecker :=
  match e.2 with
  | .result success =>
    match (self.record p e.1.1 e.1.2 success : Exec Empty HealthChecker) with
    | .ok health => health
    | .error _ => self
  | .status healthy => self.setStatus e.1.1 e.1.2 healthy

theorem healthy_noted (h : OriginHealth) (v : Bool) : (self.noted h v).healthy =
    if self.threshold v ≤ countUp (h.counter v) then v else h.healthy := by
  cases v with
  | true => cases hh : h.healthy <;> simp [noted, threshold, hh]
  | false => cases hh : h.healthy <;> simp [noted, threshold, hh]

theorem counter_noted (h : OriginHealth) (v w : Bool) :
    (self.noted h v).counter w = if v = w then countUp (h.counter v) else 0 := by
  cases v <;> cases w <;> rfl

end HealthChecker

theorem row_concat (v : Bool) (own : List HealthEvent) (e : HealthEvent) :
    row v (own ++ [e]) = if e = .result v then row v own + 1 else 0 := by
  unfold row
  rw [rtakeWhile_concat]
  split_ifs with h₁ h₂ h₂
  · exact length_append
  · exact absurd (of_decide_eq_true h₁) h₂
  · exact absurd (decide_eq_true h₂) h₁
  · rfl

variable {threshold : Bool → Nat} {own : List HealthEvent} {h : OriginHealth}

theorem row_not {v : Bool} (hrow : 0 < row v own) : row (!v) own = 0 := by
  induction own using List.reverseRecOn with
  | nil => rfl
  | append_singleton own e _ =>
    rw [row_concat] at hrow ⊢
    split_ifs at hrow with he
    · rw [he, if_neg (by simp)]
    · exact absurd hrow (lt_irrefl 0)

theorem decided_concat (e : HealthEvent) :
    decided threshold (own ++ [e]) = (fixed threshold (own ++ [e])).getD
    (decided threshold own) := by
  unfold decided
  rw [inits_append, reverse_append]
  show (List.findSome? _ ([own ++ [e]] ++ _)).getD true = _
  rw [List.findSome?_append, List.findSome?_singleton]
  cases fixed threshold (own ++ [e]) <;> rfl

/-- The record of an origin agrees with its history. -/
structure Follows (threshold : Bool → Nat) (own : List HealthEvent) (h : OriginHealth) : Prop where
  healthy : h.healthy = decided threshold own
  count : ∀ v, row v own < threshold v → h.counter v = row v own
  reached : ∀ v, threshold v ≤ row v own → h.healthy = v

section

variable (hpos : ∀ v, 0 < threshold v)
include hpos

theorem follows_status (h : OriginHealth) (v : Bool) : Follows threshold (own ++ [.status v])
    { h with healthy := v, consecutiveFailures := 0, consecutiveSuccesses := 0 } where
  healthy := by simp [decided_concat, fixed]
  count := by
    intro w _
    rw [row_concat, if_neg nofun]
    cases w <;> rfl
  reached := by
    intro w hle
    rw [row_concat, if_neg nofun] at hle
    exact absurd hle (hpos w).not_ge

theorem Follows.result (hfollows : Follows threshold own h) {v : Bool} {h' : OriginHealth}
    (hhealthy : h'.healthy = if row v own + 1 = threshold v then v else h.healthy)
    (hcount : row v own + 1 < threshold v → h'.counter v = row v own + 1)
    (hother : h'.counter (!v) = 0) : Follows threshold (own ++ [.result v]) h' where
  healthy := by
    rw [hhealthy, decided_concat, hfollows.healthy]
    simp only [fixed, List.getLast?_concat, row_concat, if_true]
    split <;> rfl
  count := by
    intro w hlt
    rw [row_concat] at hlt ⊢
    by_cases hw : w = v
    · subst hw
      rw [if_pos rfl] at hlt ⊢
      exact hcount hlt
    · rw [if_neg fun heq => hw (HealthEvent.result.inj heq).symm, Bool.eq_not.2 hw]
      exact hother
  reached := by
    intro w hle
    rw [row_concat] at hle
    split_ifs at hle with hw
    · cases hw
      rw [hhealthy]
      split
      next => rfl
      next hne => exact hfollows.reached v (by omega)
    · exact absurd hle (hpos w).not_ge

end

namespace HealthChecker

variable {p : Profile} {self : HealthChecker} {siteId originId : Str}

theorem follows_hear (hpos : ∀ v, 0 < self.threshold v)
    (h : Follows self.threshold own (self.entry (makeKey siteId originId))) (e : HealthEvent) :
    Follows self.threshold (own ++ [e])
      ((self.hear p ((siteId, originId), e)).entry (makeKey siteId originId)) := by
  unfold hear
  cases e with
  | status v =>
    dsimp only
    rw [setStatus, entry_put_self]
    exact follows_status hpos _ v
  | result v =>
    have hlt : self.threshold v < 2 ^ 32 := by
      cases v with
      | true => exact self.healthyThreshold.toNat_lt
      | false => exact self.unhealthyThreshold.toNat_lt
    have hup : row v own < self.threshold v →
        countUp ((self.entry (makeKey siteId originId)).counter v) = row v own + 1 := by
      intro hrow
      rw [h.count v hrow, countUp, Nat.mod_eq_of_lt (by omega)]
    dsimp only
    rw [record_eq]
    split_ifs with hcount
    · dsimp only
      rw [entry_put_self]
      refine h.result hpos ?_ (fun hrow => ?_) ?_
      · rw [healthy_noted]
        rcases lt_or_ge (row v own) (self.threshold v) with hrow | hrow
        · rw [hup hrow]
          exact if_congr (by omega) rfl rfl
        · rw [h.reached v hrow, ite_self, ite_self]
      · rw [counter_noted, if_pos rfl]
        exact hup (by omega)
      · rw [counter_noted, if_neg (by simp)]
    · -- the count stands at its maximum, so the row has long been long enough
      have hrow : self.threshold v ≤ row v own := by
        by_contra hrow
        refine hcount (.inr ?_)
        rw [h.count v (by omega)]
        omega
      have hnone := row_not ((hpos v).trans_le hrow)
      have hother := h.count (!v) (hnone ▸ hpos _)
      rw [hnone] at hother
      exact h.result hpos (if_neg (by omega)).symm (fun hshort => by omega) hother

end HealthChecker

/-- After every interleaving of results and calls of `set_status` at any origins, the status of an
origin is the one that was fixed last in its own history. -/
theorem isHealthy_eq_decided (p : Profile) {unhealthyThreshold healthyThreshold : UInt32}
    (hunhealthy : 1 ≤ unhealthyThreshold) (hhealthy : 1 ≤ healthyThreshold) {siteId originId : Str}
    (hsite : '\x00' ∉ siteId) (horigin : '\x00' ∉ originId)
    (events : List ((Str × Str) × HealthEvent)) :
    (events.foldl (hear p) (.new unhealthyThreshold healthyThreshold)).isHealthy siteId originId =
      decided (HealthChecker.new unhealthyThreshold healthyThreshold).threshold
        ((events.filter (·.1 = (siteId, originId))).map (·.2)) := by
  set checker := HealthChecker.new unhealthyThreshold healthyThreshold
  have hpos : ∀ v, 0 < checker.threshold v := by
    intro v
    cases v with
    | true => exact hhealthy
    | false => exact hunhealthy
  suffices h : (events.foldl (hear p) checker).threshold = checker.threshold ∧
      Follows checker.threshold ((events.filter (·.1 = (siteId, originId))).map (·.2))
        ((events.foldl (hear p) checker).entry (makeKey siteId originId)) from h.2.healthy
  induction events using List.reverseRecOn with
  | nil =>
    refine ⟨rfl, rfl, ?_, fun v hle => absurd hle (hpos v).not_ge⟩
    intro v _
    cases v <;> rfl
  | append_singleton events e ih =>
    obtain ⟨hkept, hfollows⟩ := ih
    rw [foldl_concat, filter_append, map_append]
    constructor
    · rw [← hkept, hear]
      split
      · rw [record_eq]
        split_ifs <;> rfl
      · rfl
    by_cases he : e.1 = (siteId, originId)
    · rw [filter_cons_of_pos (by simpa using he), ← hkept]
      rw [← hkept] at hfollows hpos
      obtain ⟨pair, e⟩ := e
      cases he
      exact follows_hear hpos hfollows e
    · -- events at other origins change nothing
      have hne : makeKey siteId originId ≠ makeKey e.1.1 e.1.2 :=
        fun hkey => he (Prod.ext_iff.2 (makeKey_inj hsite horigin hkey.symm))
      rw [filter_cons_of_neg (by simpa using he), filter_nil, map_nil, append_nil, hear]
      split
      · rw [record_eq]
        split_ifs
        · rwa [entry_put_of_ne _ _ hne]
        · exact hfollows
      · rwa [setStatus, entry_put_of_ne _ _ hne]

def twoFailures : List ((Str × Str) × HealthEvent) :=
  [((['s'], ['a']), .result false), ((['s'], ['b']), .result true), ((['s'], ['a']), .result false)]

theorem isHealthy_eq_decided_two :
    decided (HealthChecker.new 2 1).threshold [.result false, .result false] = false ∧
      (twoFailures.foldl (hear .release) (.new 2 1)).isHealthy ['s'] ['a'] = false := by
  refine ⟨by decide, (@isHealthy_eq_decided .release 2 1 ?_ ?_ ['s'] ['a'] ?_ ?_ twoFailures).trans
    ?_⟩
  all_goals decide

end Nozdormu.Balancer
