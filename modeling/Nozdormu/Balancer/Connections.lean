import Nozdormu.Balancer.Traffic
import Nozdormu.Data.Runs

/-!
# Active connections
-/

namespace Nozdormu.Balancer

open Rust Data Flight DynamicBalancer List

namespace DynamicBalancer

variable (b : DynamicBalancer) (siteId originId siteId' originId' : Str)

theorem activeConnCount_connDec : (b.connDec siteId originId).activeConnCount siteId' originId' =
      if makeKey siteId' originId' = makeKey siteId originId then b.activeConnCount
        siteId originId - 1
      else b.activeConnCount siteId' originId' := by
  unfold connDec activeConnCount
  dsimp only
  cases hconns : b.activeConns (makeKey siteId originId) with
  | none =>
    dsimp only
    split
    next heq =>
      rw [heq, hconns]
      rfl
    next => rfl
  | some n =>
    dsimp only
    rw [Function.update_apply]
    split <;> rfl

end DynamicBalancer

/-- The site and the origin of the latest attempt, while the request is in flight. -/
def Flight.latest (f : Flight) : Option (Str × Str) :=
  if f.phase = .finished then none else f.selectedOrigin.map fun o => (f.site.siteId, o.id)

variable {p : Profile}

namespace Traffic

def underway (s : Traffic) (siteId originId : Str) : Nat :=
  s.flights.countP fun f => f.latest = some (siteId, originId)

def Counted (s : Traffic) : Prop :=
  ∀ siteId originId, s.balancer.activeConnCount siteId originId = s.underway siteId originId

/-- The attempts so far were at origins whose ids have no NUL. -/
def Legible (s : Traffic) : Prop :=
  ∀ f ∈ s.flights, ∀ o, f.selectedOrigin = some o → '\x00' ∉ f.site.siteId ∧ '\x00' ∉ o.id

/-- The steps that keep the counts right. -/
def Careful (p : Profile) (s : Traffic) : TrafficEvent → Prop
  -- a retry does not panic, and it does not end at an origin
  | .select i world => ∀ f, s.flights[i]? = some f → f.phase = .ready → f.selectedOrigin.isSome →
    ∃ r, s.balancer.selectPeer p world f.site = .ok r
  | .resolved i found => ∀ f, s.flights[i]? = some f → ∀ o, f.phase = .resolving o → found = true →
    f.selectedOrigin = none ∧ ('\x00' ∉ f.site.siteId ∧ '\x00' ∉ o.id) ∧
      s.underway f.site.siteId o.id + 1 < 2 ^ 32
  -- the health checker can count the outcome
  | .connectFailed i => ∀ f, s.flights[i]? = some f → ∀ o, f.phase = .attempting →
    f.selectedOrigin = some o → Countable p (f.health o s.balancer).consecutiveFailures
  | .finish i status _ _ _ => ∀ f, s.flights[i]? = some f → ∀ o, f.mayFinish status = true →
    f.selectedOrigin = some o → Countable p ((f.health o s.balancer).counter (!failed status))
  | _ => True

variable {s : Traffic} {i : Nat} {f f' : Flight} {b' : DynamicBalancer}

section

variable (hs : s.Counted) (hf : s.flights[i]? = some f)
include hs hf

theorem counted_set_iff : Counted ⟨b', s.flights.set i f'⟩ ↔
      ∀ siteId originId,
        b'.activeConnCount siteId originId + (if f.latest = some (siteId, originId) then 1 else 0) =
          s.balancer.activeConnCount siteId originId +
            (if f'.latest = some (siteId, originId) then 1 else 0) := by
  refine forall₂_congr fun siteId originId => ?_
  have hcount : underway ⟨b', s.flights.set i f'⟩ siteId originId +
      (if f.latest = some (siteId, originId) then 1 else 0) =
      s.underway siteId originId + (if f'.latest = some (siteId, originId) then 1 else 0) := by
    simpa [underway] using
      countP_set_add (fun f => decide (f.latest = some (siteId, originId))) hf f'
  show b'.activeConnCount siteId originId = _ ↔ _
  rw [hs siteId originId]
  omega

theorem counted_set_of_same
    (hconns : b'.activeConns = s.balancer.activeConns) (hlatest : f'.latest = f.latest) :
    Counted ⟨b', s.flights.set i f'⟩ := by
  refine (counted_set_iff hs hf).2 fun siteId originId => ?_
  rw [hlatest, activeConnCount, hconns]
  rfl

theorem counted_set_die_iff
    (hconns : b'.activeConns = s.balancer.activeConns) (hover : f'.phase = .finished) :
    Counted ⟨b', s.flights.set i f'⟩ ↔ f.latest = none := by
  have hnone : f'.latest = none := if_pos hover
  constructor
  · intro h
    cases hlatest : f.latest with
    | none => rfl
    | some pair =>
      have hsum := (counted_set_iff hs hf).1 h pair.1 pair.2
      rw [hlatest, hnone, if_pos rfl, if_neg nofun, activeConnCount, hconns] at hsum
      exact absurd hsum (Nat.succ_ne_self _)
  · intro hlatest
    exact counted_set_of_same hs hf hconns (hnone.trans hlatest.symm)

end

section

variable (hf : f.phase ≠ .finished)
include hf

theorem latest_of_live : f.latest = f.selectedOrigin.map fun o => (f.site.siteId, o.id) := if_neg hf

theorem latest_retry : f.retry.latest = f.latest := by
  rw [latest_of_live hf, latest_of_live retry_live]
  rfl

theorem latest_eq_none_iff : f.latest = none ↔ f.selectedOrigin = none := by
  rw [latest_of_live hf, Option.map_eq_none_iff]

end

theorem makeKey_eq_iff {siteId originId siteId' originId' : Str}
    (hnul : '\x00' ∉ siteId ∧ '\x00' ∉ originId) :
    makeKey siteId' originId' = makeKey siteId originId ↔ some (siteId, originId) = some
    (siteId', originId') := by
  constructor
  · intro hkey
    obtain ⟨rfl, rfl⟩ := makeKey_inj hnul.1 hnul.2 hkey
    rfl
  · intro heq
    cases heq
    rfl

section

variable (hs : s.Counted) (hf : s.flights[i]? = some f)
include hs hf

theorem counted_upstreamPeer_iff {world : Surroundings} :
    (s.update i (upstreamPeer p world)).Counted ↔
      (f.phase = .ready → f.selectedOrigin.isSome →
        ∃ r, s.balancer.selectPeer p world f.site = .ok r) := by
  rw [update_eq hf]
  unfold upstreamPeer
  by_cases hphase : f.phase = .ready
  · have hlive : f.phase ≠ .finished := by
      rw [hphase]
      nofun
    simp only [hphase, if_true, true_imp_iff]
    cases hselect : s.balancer.selectPeer p world f.site with
    | ok r =>
      obtain ⟨selected, b'⟩ := r
      have hconns : b'.activeConns = s.balancer.activeConns := by
        rw [(of_selectPeer hselect).1]
      refine iff_of_true ?_ fun _ => ⟨_, rfl⟩
      cases selected with
      | none | some => exact counted_set_of_same hs hf hconns (by simp [latest, hphase])
    | error stop =>
      refine (counted_set_die_iff hs hf rfl rfl).trans ?_
      rw [latest_eq_none_iff hlive]
      simp
  · simp only [hphase, if_false, false_imp_iff, iff_true]
    exact counted_set_of_same hs hf rfl rfl

theorem counted_set_inc_iff {siteId originId : Str}
    (hlatest : f'.latest = some (siteId, originId)) :
    Counted ⟨s.balancer.connInc siteId originId, s.flights.set i f'⟩ ↔
      f.latest = none ∧ ('\x00' ∉ siteId ∧ '\x00' ∉ originId) ∧
        s.underway siteId originId + 1 < 2 ^ 32 := by
  rw [counted_set_iff hs hf, hlatest, ← hs siteId originId]
  simp only [connInc, activeConnCount, Function.update_apply, apply_ite (Option.getD · 0),
    Option.getD_some]
  constructor
  · intro h
    have hself := h siteId originId
    rw [if_pos rfl, if_pos rfl] at hself
    have hsame : ∀ siteId' originId', (siteId', originId') ≠ (siteId, originId) →
        makeKey siteId' originId' ≠ makeKey siteId originId := by
      intro siteId' originId' hne hkey
      have hother := h siteId' originId'
      rw [if_pos hkey, if_neg fun heq => hne (Option.some.inj heq).symm, hkey] at hother
      split at hother <;> split at hself <;> omega
    have hnone : f.latest = none := by
      cases hpair : f.latest with
      | none => rfl
      | some pair =>
        rw [hpair] at h hself
        by_cases heq : pair = (siteId, originId)
        · rw [if_pos (congrArg some heq)] at hself
          omega
        · have hother := h pair.1 pair.2
          rw [if_neg (hsame pair.1 pair.2 heq), if_pos rfl,
            if_neg fun heq' => heq (Option.some.inj heq').symm] at hother
          omega
    rw [hnone, if_neg nofun] at hself
    refine ⟨hnone, ?_, by omega⟩
    by_contra hnul
    obtain ⟨siteId', originId', hne, hkey⟩ := exists_same_key hnul
    exact hsame siteId' originId' hne hkey
  · rintro ⟨hnone, hnul, hroom⟩ siteId' originId'
    rw [hnone, if_neg (c := none = some (siteId', originId')) nofun, Nat.add_zero]
    simp only [makeKey_eq_iff hnul]
    split_ifs with heq
    · cases heq
      exact Nat.mod_eq_of_lt hroom
    · rfl

theorem counted_resolved_iff {found : Bool} : (s.update i (resolved found)).Counted ↔
      ∀ o, f.phase = .resolving o → found = true →
        f.selectedOrigin = none ∧ ('\x00' ∉ f.site.siteId ∧ '\x00' ∉ o.id) ∧
          s.underway f.site.siteId o.id + 1 < 2 ^ 32 := by
  rw [update_eq hf]
  unfold resolved
  cases hphase : f.phase with
  | resolving o =>
    have hlive : f.phase ≠ .finished := by
      rw [hphase]
      nofun
    cases found with
    | true =>
      refine (counted_set_inc_iff hs hf rfl).trans ?_
      rw [latest_eq_none_iff hlive]
      constructor
      · rintro h o' ho' -
        cases ho'
        exact h
      · intro h
        exact h o rfl rfl
    | false =>
      refine iff_of_true (counted_set_of_same hs hf rfl ?_) nofun
      simp [latest, hphase]
  | ready | attempting | ending | finished =>
    exact iff_of_true (counted_set_of_same hs hf rfl rfl) nofun

theorem counted_failToConnect_iff : (s.update i (failToConnect p)).Counted ↔
      ∀ o, f.phase = .attempting → f.selectedOrigin = some o →
        Countable p (f.health o s.balancer).consecutiveFailures := by
  rw [update_eq hf]
  by_cases hphase : f.phase = .attempting
  · have hlive : f.phase ≠ .finished := by
      rw [hphase]
      nofun
    cases ho : f.selectedOrigin with
    | none =>
      rw [failToConnect_of_none hphase ho]
      exact iff_of_true (counted_set_of_same hs hf rfl (latest_retry hlive)) nofun
    | some o =>
      rw [failToConnect_of_some hphase ho]
      split_ifs with hcount
      · have hlatest := latest_retry (f := f.tryFailed.told false) hlive
        refine iff_of_true (counted_set_of_same hs hf rfl hlatest) ?_
        rintro o' - ho'
        cases ho'
        exact hcount
      · refine (counted_set_die_iff hs hf rfl rfl).trans (iff_of_false ?_ ?_)
        · rw [latest_eq_none_iff hlive, ho]
          nofun
        · exact fun h => hcount (h o hphase rfl)
  · rw [failToConnect_of_not hphase]
    exact iff_of_true (counted_set_of_same hs hf rfl rfl) fun _ h => absurd h hphase

theorem counted_lostReused : (s.update i lostReused).Counted := by
  rw [update_eq hf]
  unfold lostReused
  split
  next hphase =>
    refine counted_set_of_same hs hf rfl ?_
    simp [latest, hphase]
  next => exact counted_set_of_same hs hf rfl rfl

theorem counted_set_dec {siteId originId : Str}
    (hnul : '\x00' ∉ siteId ∧ '\x00' ∉ originId) (hlatest : f.latest = some (siteId, originId))
    (hover : f'.phase = .finished)
    (hconns : b'.activeConns = (s.balancer.connDec siteId originId).activeConns) :
    Counted ⟨b', s.flights.set i f'⟩ := by
  have hpos : 0 < s.balancer.activeConnCount siteId originId := by
    rw [hs siteId originId, underway, countP_pos_iff]
    exact ⟨f, mem_of_getElem? hf, by simpa using hlatest⟩
  refine (counted_set_iff hs hf).2 fun siteId' originId' => ?_
  have hcount : b'.activeConnCount siteId' originId' =
      (s.balancer.connDec siteId originId).activeConnCount siteId' originId' := by
    rw [activeConnCount, hconns]
    rfl
  rw [hcount, activeConnCount_connDec, hlatest, show f'.latest = none from if_pos hover,
    if_neg (c := none = some (siteId', originId')) nofun, Nat.add_zero]
  simp only [makeKey_eq_iff hnul]
  split_ifs with heq
  · cases heq
    omega
  · rfl

end

theorem counted_logging_iff {status now : Nat} {conduct : Conduct} {latencyMs : Float}
    (hlegible : s.Legible) (hs : s.Counted) (hf : s.flights[i]? = some f) :
    (s.update i (logging p status conduct now latencyMs)).Counted ↔
      ∀ o, f.mayFinish status = true → f.selectedOrigin = some o →
        Countable p ((f.health o s.balancer).counter (!failed status)) := by
  rw [update_eq hf]
  by_cases hfinish : f.mayFinish status = true
  · have hlive := live_of_mayFinish hfinish
    cases ho : f.selectedOrigin with
    | none =>
      rw [logging_of_none hfinish ho]
      exact iff_of_true
        ((counted_set_die_iff hs hf rfl rfl).2 ((latest_eq_none_iff hlive).2 ho)) nofun
    | some o =>
      have hlatest : f.latest = some (f.site.siteId, o.id) := by rw [latest_of_live hlive, ho]; rfl
      rw [logging_of_some hfinish ho]
      split_ifs with hcount
      · have hnul := hlegible f (mem_of_getElem? hf) o ho
        refine iff_of_true (counted_set_dec hs hf hnul hlatest rfl ?_) ?_
        · unfold recordResponse connDec noted
          dsimp only
          split <;> rfl
        · rintro o' - ho'
          cases ho'
          exact hcount
      · refine (counted_set_die_iff hs hf rfl rfl).trans (iff_of_false ?_ ?_)
        · rw [hlatest]
          nofun
        · exact fun h => hcount (h o hfinish rfl)
  · rw [logging_of_not hfinish]
    exact iff_of_true (counted_set_of_same hs hf rfl rfl) fun _ h => absurd h hfinish

theorem counted_update_iff {callback : Flight → DynamicBalancer → DynamicBalancer × Flight}
    {C : Flight → Prop} (hs : s.Counted)
    (h : ∀ f, s.flights[i]? = some f → ((s.update i callback).Counted ↔ C f)) :
    (s.update i callback).Counted ↔ ∀ f, s.flights[i]? = some f → C f := by
  cases hf : s.flights[i]? with
  | none =>
    rw [update_of_none hf]
    refine iff_of_true hs ?_
    intro f hnone
    cases hnone
  | some f =>
    rw [h f hf]
    constructor
    · rintro hC g hg
      cases hg
      exact hC
    · intro hC
      exact hC f rfl

theorem counted_step_iff (hlegible : s.Legible) (hs : s.Counted) (e : TrafficEvent) :
    (s.step p e).Counted ↔ s.Careful p e := by
  cases e with
  | arrive site =>
    refine iff_of_true ?_ trivial
    intro siteId originId
    show s.balancer.activeConnCount siteId originId = (s.flights ++ [_]).countP _
    rw [countP_append, hs siteId originId]
    rfl
  | select i world => exact counted_update_iff hs fun f hf => counted_upstreamPeer_iff hs hf
  | resolved i found => exact counted_update_iff hs fun f hf => counted_resolved_iff hs hf
  | connectFailed i => exact counted_update_iff hs fun f hf => counted_failToConnect_iff hs hf
  | lostReused i =>
    refine iff_of_true ?_ trivial
    show (s.update i lostReused).Counted
    cases hf : s.flights[i]? with
    | none =>
      rw [update_of_none hf]
      exact hs
    | some f => exact counted_lostReused hs hf
  | finish i status conduct now latencyMs =>
    exact counted_update_iff hs fun f hf => counted_logging_iff hlegible hs hf
  | setStatus siteId originId healthy => exact iff_of_true hs trivial

theorem legible_step (hlegible : s.Legible) {e : TrafficEvent} (he : s.Careful p e) :
    (s.step p e).Legible := by
  have hsame : ∀ {f f' : Flight}, f.SameAttempt f' →
      (∀ o, f.selectedOrigin = some o → '\x00' ∉ f.site.siteId ∧ '\x00' ∉ o.id) →
      ∀ o, f'.selectedOrigin = some o → '\x00' ∉ f'.site.siteId ∧ '\x00' ∉ o.id := by
    rintro f f' ⟨hsite, horigin⟩ h
    rwa [hsite, horigin]
  cases e with
  | arrive site =>
    intro f hf o ho
    rcases mem_append.1 hf with hf | hf
    · exact hlegible f hf o ho
    · rw [mem_singleton.1 hf] at ho
      cases ho
  | select i world =>
    exact forall_update hlegible fun f _ => hsame (f.sameAttempt_upstreamPeer world)
  | resolved i found =>
    refine forall_update hlegible fun f hf h => ?_
    unfold resolved
    split
    next o hphase =>
      split
      next hfound =>
        rintro o' ho'
        cases ho'
        exact (he f hf o hphase hfound).2.1
      next => exact h
    next => exact h
  | connectFailed i => exact forall_update hlegible fun f _ => hsame f.sameAttempt_failToConnect
  | lostReused i => exact forall_update hlegible fun f _ => hsame f.sameAttempt_lostReused
  | finish i status conduct now latencyMs =>
    exact forall_update hlegible fun f _ => hsame f.sameAttempt_logging
  | setStatus siteId originId healthy => exact hlegible

/-- The counts are right all along a run exactly if its steps are careful: above all, if no request
that had an origin is given another one. -/
theorem counted_iff (p : Profile) (health : HealthChecker) (events : List TrafficEvent) :
    (∀ pre, pre <+: events → (run p pre (start health)).Counted) ↔
      ∀ pre e, pre ++ [e] <+: events → (run p pre (start health)).Careful p e :=
  forall_prefix_iff (I := Legible) (fun _ e hlegible hs => counted_step_iff hlegible hs e)
    (fun _ _ hlegible _ he => legible_step hlegible he) events
    (fun _ hf => absurd hf not_mem_nil) fun _ _ => rfl

def retriedElsewhere : List TrafficEvent :=
  [.arrive pairedSite, .select 0 quietWorld, .resolved 0 true, .connectFailed 0,
    .select 0 quietWorld,
    .resolved 0 true, .finish 0 200 (.answered 200) 0 0]

/-- No request is in flight any more, and the first origin has a connection. -/
theorem counted_fails : let s := run .release retriedElsewhere (start (.new 3 2))
    (∀ f ∈ s.flights, f.phase = .finished) ∧ s.balancer.activeConnCount "s" "a" = 1 ∧
      ¬ s.Counted := by
  have hconns : (run .release retriedElsewhere (start (.new 3 2))).balancer.activeConnCount "s"
      "a" = 1 := by decide +kernel
  refine ⟨by decide +kernel, hconns, fun hcounted => ?_⟩
  have heq := hcounted "s" "a"
  cases heq

end Traffic

end Nozdormu.Balancer
