import Nozdormu.Balancer.Reports

/-!
# The way back of an unhealthy origin

Without probes and without the administrator, an origin is healthy again once enough requests in a
row went well there. Only requests that are at it already can do that: none is sent to an origin
that is not healthy. `canRecover_iff` counts them.
-/

namespace Nozdormu.Balancer

open Rust Data Flight List

/-- The key of the origin that the request is at, or will be at once its address is known. -/
def Flight.target (f : Flight) : Option Str :=
  match f.phase with
  | .resolving o => some (makeKey f.site.siteId o.id)
  | .attempting => f.selectedOrigin.map fun o => makeKey f.site.siteId o.id
  | _ => none

/-- What a callback can do: a success is noted for the origin that the request leaves, and a request
is sent to a healthy origin. -/
structure Effect (b b' : DynamicBalancer) (f f' : Flight) : Prop where
  threshold : b'.health.healthyThreshold = b.health.healthyThreshold
  entry : ∀ key, b'.health.entry key = b.health.entry key ∨
    b'.health.entry key = b.health.noted (b.health.entry key) false ∨
    (b'.health.entry key = b.health.noted (b.health.entry key) true ∧ f.target = some key ∧
      f'.target ≠ some key)
  target : ∀ key, f'.target = some key → f.target = some key ∨ (b.health.entry key).healthy = true

namespace Effect

variable {b b' : DynamicBalancer} {f f' : Flight} {o : OriginConfig} {success : Bool}

theorem of_health (hhealth : b'.health = b.health)
    (htarget : ∀ key, f'.target = some key → f.target = some key ∨
      (b.health.entry key).healthy = true) :
    Effect b b' f f' where
  threshold := by rw [hhealth]
  entry := fun key => .inl (by rw [hhealth])
  target := htarget

theorem of_noted (hhealth : b'.health = (f.noted o success b).health) (htarget : f'.target = none)
    (hsuccess : success = true → f.target = some (makeKey f.site.siteId o.id)) :
      Effect b b' f f' where
  threshold := by rw [hhealth]; rfl
  entry := by
    intro key
    rw [hhealth]
    by_cases hkey : key = makeKey f.site.siteId o.id
    · obtain rfl := hkey
      have hentry : (f.noted o success b).health.entry (makeKey f.site.siteId o.id) =
          b.health.noted (b.health.entry (makeKey f.site.siteId o.id)) success :=
        HealthChecker.entry_put_self ..
      rw [hentry]
      cases success with
      | true => exact .inr (.inr ⟨rfl, hsuccess rfl, by rw [htarget]; nofun⟩)
      | false => exact .inr (.inl rfl)
    · exact .inl (HealthChecker.entry_put_of_ne _ _ hkey)
  target := fun key h => by rw [htarget] at h; cases h

end Effect

namespace Flight

variable {p : Profile} {f : Flight} {b : DynamicBalancer}

theorem target_of_idle (h : f.phase = .ready ∨ f.phase = .ending ∨ f.phase = .finished) :
    f.target = none := by
  unfold target
  rcases h with h | h | h <;> rw [h]

theorem target_retry : f.retry.target = none := by
  refine target_of_idle ?_
  by_cases h : f.balancerTried < f.site.loadBalancer.retries.toNat
  · exact .inl (if_pos h)
  · exact .inr (.inl (if_neg h))

theorem target_die : f.die.target = none := target_of_idle (.inr (.inr rfl))

theorem target_of_attempting {o : OriginConfig} (h : f.phase = .attempting)
    (ho : f.selectedOrigin = some o) :
    f.target = some (makeKey f.site.siteId o.id) := by
  rw [target, h, ho]
  rfl

/-- Whatever the request and the balancer are, the callback has its effect. -/
def Effective (callback : Flight → DynamicBalancer → DynamicBalancer × Flight) : Prop :=
  ∀ f b, Effect b (callback f b).1 f (callback f b).2

theorem effect_of_idle {b' : DynamicBalancer} {f' : Flight} (hhealth : b'.health = b.health)
    (hidle : f'.target = none) : Effect b b' f f' := by
  refine .of_health hhealth fun key h => ?_
  rw [hidle] at h
  cases h

theorem effect_refl : Effect b b f f := .of_health rfl fun _ => .inl

theorem effective_upstreamPeer (world : Surroundings) : Effective (upstreamPeer p world) := by
  intro f b
  unfold upstreamPeer
  split
  next hphase =>
    cases hselect : b.selectPeer p world f.site with
    | ok r =>
      obtain ⟨selected, b'⟩ := r
      obtain ⟨hcounter, hcandidate⟩ := DynamicBalancer.of_selectPeer hselect
      have hhealth : b'.health = b.health := by rw [hcounter]
      cases selected with
      | none => exact effect_of_idle hhealth (target_of_idle (.inr (.inl rfl)))
      | some o =>
        refine .of_health hhealth fun key h => .inr ?_
        obtain rfl : makeKey f.site.siteId o.id = key := Option.some.inj h
        have hmem := hcandidate o rfl
        unfold DynamicBalancer.candidates at hmem
        dsimp only at hmem
        split at hmem <;> exact (mem_filter.1 hmem).2
    | error stop => exact effect_of_idle rfl target_die
  next => exact effect_refl

theorem effective_resolved (found : Bool) : Effective (resolved found) := by
  intro f b
  unfold resolved
  split
  next o hphase =>
    split
    · refine .of_health rfl fun key h => .inl ?_
      rw [target, hphase]
      exact h
    · exact effect_of_idle rfl (target_of_idle (.inr (.inl rfl)))
  next => exact effect_refl

theorem effective_failToConnect : Effective (failToConnect p) := by
  intro f b
  by_cases hphase : f.phase = .attempting
  · cases ho : f.selectedOrigin with
    | none =>
      rw [failToConnect_of_none hphase ho]
      exact effect_of_idle rfl target_retry
    | some o =>
      rw [failToConnect_of_some hphase ho]
      split
      · exact .of_noted rfl target_retry nofun
      · exact effect_of_idle rfl target_die
  · rw [failToConnect_of_not hphase]
    exact effect_refl

theorem effective_lostReused : Effective lostReused := by
  intro f b
  unfold lostReused
  split
  · exact effect_of_idle rfl (target_of_idle (.inl rfl))
  · exact effect_refl

variable {status now : Nat} {conduct : Conduct} {latencyMs : Float}

theorem connDec_health {siteId originId : Str} : (b.connDec siteId originId).health = b.health := by
  unfold DynamicBalancer.connDec
  dsimp only
  split <;> rfl

theorem effective_logging : Effective (logging p status conduct now latencyMs) := by
  intro f b
  by_cases hfinish : f.mayFinish status = true
  · cases ho : f.selectedOrigin with
    | none =>
      rw [logging_of_none hfinish ho]
      exact effect_of_idle rfl target_die
    | some o =>
      rw [logging_of_some hfinish ho]
      split
      · refine .of_noted connDec_health target_die fun hsuccess => ?_
        -- only an attempt can end in a success
        by_cases hphase : f.phase = .attempting
        · exact target_of_attempting hphase ho
        · rw [failed_of_mayFinish hfinish hphase ho] at hsuccess
          cases hsuccess
      · exact effect_of_idle rfl target_die
  · rw [logging_of_not hfinish]
    exact effect_refl

end Flight

def TrafficEvent.passive : TrafficEvent → Bool
  | .setStatus _ _ _ => false
  | _ => true

/-- Nobody meddles, and what is tried goes well. -/
def TrafficEvent.smooth : TrafficEvent → Bool
  | .finish _ status conduct _ _ => conduct = .answered status && conduct.success && !failed status
  | .connectFailed _ | .lostReused _ | .setStatus _ _ _ => false
  | _ => true

namespace Traffic

variable {s : Traffic} {i : Nat} {p : Profile} {key : Str}

def entry (s : Traffic) (key : Str) : OriginHealth := s.balancer.health.entry key

def threshold (s : Traffic) : Nat := s.balancer.health.healthyThreshold.toNat

def bound (s : Traffic) (key : Str) : Nat := s.flights.countP fun f => f.target = some key

/-- The requests that are left cannot bring the origin back. -/
def Hopeless (s : Traffic) (key : Str) : Prop :=
  (s.entry key).healthy = false ∧
    (s.bound key = 0 ∨ (s.entry key).consecutiveSuccesses + s.bound key < s.threshold)

/-- An origin that is not healthy has not had the successes it needs. -/
def Short (s : Traffic) : Prop :=
  ∀ key, (s.entry key).healthy = false →
    (s.entry key).consecutiveSuccesses = 0 ∨ (s.entry key).consecutiveSuccesses < s.threshold

theorem threshold_lt (s : Traffic) :
    s.threshold < 2 ^ 32 := s.balancer.health.healthyThreshold.toNat_lt

variable {callback : Flight → DynamicBalancer → DynamicBalancer × Flight}

variable {f : Flight}

theorem bound_update (callback : Flight → DynamicBalancer → DynamicBalancer × Flight) (key : Str)
    (hf : s.flights[i]? = some f) :
    (s.update i callback).bound key + (if f.target = some key then 1 else 0) =
      s.bound key + (if (callback f s.balancer).2.target = some key then 1 else 0) := by
  rw [update_eq hf]
  simpa [bound] using
    countP_set_add (fun f => decide (f.target = some key)) hf (callback f s.balancer).2

theorem threshold_update (hf : s.flights[i]? = some f) (h : Effective callback) :
    (s.update i callback).threshold = s.threshold := by
  rw [update_eq hf]
  exact congrArg UInt32.toNat (h f s.balancer).threshold

theorem entry_update (hf : s.flights[i]? = some f) (h : Effective callback) (key : Str) :
    (s.update i callback).entry key = s.entry key ∨
      (s.update i callback).entry key = s.balancer.health.noted (s.entry key) false ∨
      ((s.update i callback).entry key = s.balancer.health.noted (s.entry key) true ∧
        f.target = some key ∧ (callback f s.balancer).2.target ≠ some key) := by
  rw [update_eq hf]
  exact (h f s.balancer).entry key

theorem Hopeless.update (h : s.Hopeless key) (heffect : Effective callback) :
    (s.update i callback).Hopeless key := by
  cases hf : s.flights[i]? with
  | none => rwa [update_of_none hf]
  | some f =>
    obtain ⟨hsick, hfew⟩ := h
    have hbound := bound_update callback key hf
    -- no request is sent to an origin that is not healthy
    have htarget : (callback f s.balancer).2.target = some key → f.target = some key := by
      intro htarget
      refine ((heffect f s.balancer).target key htarget).resolve_right fun hhealthy => ?_
      rw [show (s.balancer.health.entry key).healthy = false from hsick] at hhealthy
      cases hhealthy
    have hle : (s.update i callback).bound key ≤ s.bound key := by
      by_cases hto : (callback f s.balancer).2.target = some key
      · rw [if_pos hto, if_pos (htarget hto)] at hbound
        omega
      · rw [if_neg hto] at hbound
        omega
    unfold Hopeless
    rw [threshold_update hf heffect]
    rcases entry_update hf heffect key with hsame | hfailure | ⟨hsuccess, hfrom, haway⟩
    · rw [hsame]
      exact ⟨hsick, by omega⟩
    · rw [hfailure]
      refine ⟨?_, ?_⟩
      · show (_ && _) = false
        rw [hsick, Bool.false_and]
      · show _ ∨ 0 + _ < _
        omega
    · rw [if_pos hfrom, if_neg haway] at hbound
      have hroom := s.threshold_lt
      have hcount : countUp (s.entry key).consecutiveSuccesses =
          (s.entry key).consecutiveSuccesses + 1 :=
        Nat.mod_eq_of_lt (by omega)
      rw [hsuccess]
      refine ⟨?_, ?_⟩
      · show (_ || decide (s.threshold ≤ countUp (s.entry key).consecutiveSuccesses)) = false
        rw [hsick, hcount, Bool.false_or]
        exact decide_eq_false (by omega)
      · show _ ∨ countUp (s.entry key).consecutiveSuccesses + _ < _
        omega

theorem Hopeless.step (h : s.Hopeless key) {e : TrafficEvent} (he : e.passive = true) :
    (s.step p e).Hopeless key := by
  cases e with
  | arrive site =>
    have hbound : (s.step p (.arrive site)).bound key = s.bound key := by
      show (s.flights ++ [_]).countP _ = _
      rw [countP_append]
      rfl
    unfold Hopeless
    rw [hbound]
    exact h
  | select i world => exact h.update (effective_upstreamPeer world)
  | resolved i found => exact h.update (effective_resolved found)
  | connectFailed i => exact h.update effective_failToConnect
  | lostReused i => exact h.update effective_lostReused
  | finish i status conduct now latencyMs => exact h.update effective_logging
  | setStatus siteId originId healthy => cases he

theorem Hopeless.run {more : List TrafficEvent} (hmore : ∀ e ∈ more, e.passive = true)
    (h : s.Hopeless key) : (run p more s).Hopeless key := by
  exact List.foldlRecOn (motive := (Hopeless · key)) more _ h fun _ h e he => h.step (hmore e he)

theorem Short.update (h : s.Short) (heffect : Effective callback) :
    (s.update i callback).Short := by
  cases hf : s.flights[i]? with
  | none => rwa [update_of_none hf]
  | some f =>
    intro key hsick
    rw [threshold_update hf heffect]
    rcases entry_update hf heffect key with hsame | hfailure | ⟨hsuccess, -, -⟩
    · rw [hsame] at hsick ⊢
      exact h key hsick
    · rw [hfailure]
      exact .inl rfl
    · rw [hsuccess] at hsick ⊢
      have hbelow : ((s.entry key).healthy ||
          decide (s.threshold ≤ countUp (s.entry key).consecutiveSuccesses)) = false := hsick
      rw [Bool.or_eq_false_iff, decide_eq_false_iff_not] at hbelow
      exact .inr (Nat.lt_of_not_le hbelow.2)

theorem Short.step (h : s.Short) (e : TrafficEvent) : (s.step p e).Short := by
  cases e with
  | arrive site => exact h
  | select i world => exact h.update (effective_upstreamPeer world)
  | resolved i found => exact h.update (effective_resolved found)
  | connectFailed i => exact h.update effective_failToConnect
  | lostReused i => exact h.update effective_lostReused
  | finish i status conduct now latencyMs => exact h.update effective_logging
  | setStatus siteId originId healthy =>
    intro key hsick
    by_cases hkey : key = makeKey siteId originId
    · have hentry : (s.step p (.setStatus siteId originId healthy)).entry key =
          { s.entry key with healthy, consecutiveFailures := 0, consecutiveSuccesses := 0 } := by
        rw [hkey]
        exact HealthChecker.entry_put_self ..
      rw [hentry]
      exact .inl rfl
    · have hentry : (s.step p (.setStatus siteId originId healthy)).entry key = s.entry key :=
        HealthChecker.entry_put_of_ne _ _ hkey
      rw [hentry] at hsick ⊢
      exact h key hsick

theorem Short.run (h : s.Short) (events : List TrafficEvent) : (run p events s).Short := by
  exact List.foldlRecOn events _ h fun _ h e _ => h.step e

theorem answer_step {o : OriginConfig} (hshort : s.Short) (hf : s.flights[i]? = some f)
    (hphase : f.phase = .attempting) (ho : f.selectedOrigin = some o)
    (hsick : (s.entry (makeKey f.site.siteId o.id)).healthy = false) :
    let s' := s.step p (.finish i 200 (.answered 200) 0 0)
    s'.entry (makeKey f.site.siteId o.id) =
        s.balancer.health.noted (s.entry (makeKey f.site.siteId o.id)) true ∧
      s'.bound (makeKey f.site.siteId o.id) + 1 = s.bound (makeKey f.site.siteId o.id) ∧
      s'.threshold = s.threshold := by
  have hfinish : f.mayFinish 200 = true := by simp [mayFinish, hphase]
  have hcount : Countable p (s.entry (makeKey f.site.siteId o.id)).consecutiveSuccesses := by
    have hroom := s.threshold_lt
    have hbelow := hshort _ hsick
    exact .inr (by omega)
  have hlogging : f.logging p 200 (.answered 200) 0 0 s.balancer = _ :=
    (logging_of_some hfinish ho).trans (if_pos hcount)
  have hbound := bound_update (logging p 200 (.answered 200) 0 0) (makeKey f.site.siteId o.id) hf
  have haway : (f.logging p 200 (.answered 200) 0 0 s.balancer).2.target = none := by
    rw [hlogging]
    exact target_die
  rw [haway, if_pos (target_of_attempting hphase ho), if_neg (by simp)] at hbound
  refine ⟨?_, hbound, threshold_update hf effective_logging⟩
  show (s.update i _).entry _ = _
  rw [update_eq hf, hlogging]
  show HealthChecker.entry (DynamicBalancer.connDec _ _ _).health _ = _
  rw [connDec_health]
  exact HealthChecker.entry_put_self ..

theorem success_of_bound (hshort : s.Short) (hsick : (s.entry key).healthy = false)
    (hbound : 0 < s.bound key) :
    ∃ more, (∀ e ∈ more, TrafficEvent.smooth e = true) ∧ (run p more s).Short ∧
      (run p more s).entry key = s.balancer.health.noted (s.entry key) true ∧
      (run p more s).bound key + 1 = s.bound key ∧ (run p more s).threshold = s.threshold := by
  obtain ⟨f, hmem, htarget⟩ := countP_pos_iff.1 hbound
  obtain ⟨i, hf⟩ := List.getElem?_of_mem hmem
  have htarget : f.target = some key := by simpa using htarget
  cases hphase : f.phase with
  | attempting =>
    cases ho : f.selectedOrigin with
    | none => simp [target, hphase, ho] at htarget
    | some o =>
      rw [target_of_attempting hphase ho] at htarget
      cases htarget
      exact ⟨[.finish i 200 (.answered 200) 0 0], forall_mem_singleton.2 rfl, hshort.run _,
        answer_step hshort hf hphase ho hsick⟩
  | resolving o =>
    obtain rfl : makeKey f.site.siteId o.id = key := by
      rw [target, hphase] at htarget
      exact Option.some.inj htarget
    -- its address comes first, and the rest is as above
    have hthreshold : (s.step p (.resolved i true)).threshold = s.threshold :=
      threshold_update hf (effective_resolved true)
    have hbound' : (s.step p (.resolved i true)).bound (makeKey f.site.siteId o.id) =
        s.bound (makeKey f.site.siteId o.id) := by
      have hsum := bound_update (resolved true) (makeKey f.site.siteId o.id) hf
      rw [resolved_eq hphase, htarget] at hsum
      exact Nat.add_right_cancel hsum
    have hstep : s.step p (.resolved i true) =
        ⟨s.balancer.connInc f.site.siteId o.id, s.flights.set i (f.sentTo o)⟩ := by
      show s.update i _ = _
      rw [update_eq hf, resolved_eq hphase]
    have hf' : (s.step p (.resolved i true)).flights[i]? = some (f.sentTo o) := by
      rw [hstep]
      exact List.getElem?_set_self (List.getElem?_eq_some_iff.1 hf).1
    have hhealth : (s.step p (.resolved i true)).balancer.health = s.balancer.health := by
      rw [hstep]
      rfl
    obtain ⟨hnoted, hone, hkept⟩ := answer_step (hshort.step (.resolved i true)) hf' rfl rfl
      (by rw [entry, hhealth]; exact hsick)
    refine ⟨[.resolved i true, .finish i 200 (.answered 200) 0 0], ?_,
      hshort.run _, ?_, hone.trans hbound', hkept.trans hthreshold⟩
    · exact forall_mem_cons.2 ⟨rfl, forall_mem_singleton.2 rfl⟩
    · simp only [entry, hhealth] at hnoted
      exact hnoted
  | ready | ending | finished => simp [target, hphase] at htarget

theorem recovers_of_bound (hshort : s.Short) (hsick : (s.entry key).healthy = false)
    (hbound : 0 < s.bound key)
    (henough : s.threshold ≤ (s.entry key).consecutiveSuccesses + s.bound key) :
    ∃ more, (∀ e ∈ more, TrafficEvent.smooth e = true) ∧
    ((run p more s).entry key).healthy = true := by
  induction hn : s.bound key generalizing s with
  | zero => omega
  | succ n ih =>
    obtain ⟨more, hsmooth, hshort', hnoted, hone, hthreshold⟩ :=
      success_of_bound hshort hsick hbound
    by_cases hhealthy : ((run p more s).entry key).healthy = true
    · exact ⟨more, hsmooth, hhealthy⟩
    rw [Bool.not_eq_true] at hhealthy
    have hcount : ((run p more s).entry key).consecutiveSuccesses =
        (s.entry key).consecutiveSuccesses + 1 := by
      rw [hnoted]
      refine Nat.mod_eq_of_lt ?_
      have hroom := s.threshold_lt
      have hbelow := hshort key hsick
      show (s.entry key).consecutiveSuccesses + 1 < _
      omega
    have hbelow := hshort' key hhealthy
    obtain ⟨rest, hrest, hdone⟩ := ih hshort' hhealthy (by omega) (by omega) (by omega)
    refine ⟨more ++ rest, ?_, ?_⟩
    · exact forall_mem_append.2 ⟨hsmooth, hrest⟩
    · rw [run, foldl_append]
      exact hdone

/-- There is a continuation in which an origin answers and is healthy again exactly if it is
healthy, or if at least one request is still on its way there and they are enough for the threshold.
-/
theorem canRecover_iff (p : Profile) (unhealthyThreshold healthyThreshold : UInt32)
    (events : List TrafficEvent) (siteId originId : Str) :
    let s := run p events (start (.new unhealthyThreshold healthyThreshold))
    (∃ more, (∀ e ∈ more, TrafficEvent.smooth e = true) ∧
        (run p more s).balancer.health.isHealthy siteId originId = true) ↔
      s.balancer.health.isHealthy siteId originId = true ∨
        0 < s.bound (makeKey siteId originId) ∧
          s.threshold ≤ (s.entry (makeKey siteId originId)).consecutiveSuccesses +
            s.bound (makeKey siteId originId) := by
  intro s
  constructor
  · rintro ⟨more, hsmooth, hhealthy⟩
    by_contra hhopeless
    rw [not_or, Bool.not_eq_true] at hhopeless
    have hstuck : s.Hopeless (makeKey siteId originId) := ⟨hhopeless.1, by omega⟩
    have hpassive : ∀ e ∈ more, TrafficEvent.passive e = true := by
      intro e he
      cases e with
      | setStatus => cases hsmooth _ he
      | _ => rfl
    exact absurd hhealthy (Bool.eq_false_iff.1 (hstuck.run (p := p) hpassive).1)
  · intro h
    by_cases hhealthy : s.balancer.health.isHealthy siteId originId = true
    · exact ⟨[], fun e he => absurd he not_mem_nil, hhealthy⟩
    · obtain ⟨hbound, henough⟩ := h.resolve_left hhealthy
      exact recovers_of_bound (Short.run (fun _ hsick => by cases hsick) events)
        (Bool.eq_false_iff.2 hhealthy)
        hbound henough

/-- After `unreachable` the only origin of the site is out of service, whatever else happens. -/
theorem recovers_fails :
    (∀ e ∈ unreachable, TrafficEvent.passive e = true) ∧
      ∀ more, (∀ e ∈ more, TrafficEvent.passive e = true) →
        (run .release more (run .release unreachable (start (.new 3 2)))).balancer.health.isHealthy
          "s" "a" = false := by
  refine ⟨by decide, fun more hmore => ?_⟩
  have hstuck : (run .release unreachable (start (.new 3 2))).Hopeless (makeKey "s" "a") :=
    ⟨by decide +kernel, .inl (by decide +kernel)⟩
  exact (hstuck.run hmore).1

end Traffic

end Nozdormu.Balancer
