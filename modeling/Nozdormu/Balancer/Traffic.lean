import Nozdormu.Balancer.Select

/-!
# Requests on their way to an origin

What the callbacks of `cdn-proxy/src/proxy.rs` do to the balancer while requests are under way:
`upstream_peer` selects an origin and counts the connection, `fail_to_connect` notes a failure and
may ask for another attempt, `logging` notes the outcome and counts the connection back.
-/

namespace Nozdormu.Balancer

open Rust

inductive Phase where
  /-- before its first attempt, or before the next one -/
  | ready
  /-- `select_peer` waits for the address of the origin -/
  | resolving (origin : OriginConfig)
  /-- at the origin in `selected_origin` -/
  | attempting
  /-- there is no further attempt -/
  | ending
  | finished
deriving DecidableEq, Repr

/-- What the origin did with the last attempt. -/
inductive Conduct where
  | answered (status : Nat)
  | brokeOff
  /-- It was not done when the client left. -/
  | pending
deriving DecidableEq, Repr

/-- Whether the attempt speaks for the origin. -/
def Conduct.success : Conduct → Bool
  | .answered status => status < 500
  | .brokeOff => false
  | .pending => true

structure Report where
  /-- The attempts of a request are counted from 1. -/
  attempt : Nat
  originId : Str
  success : Bool
deriving DecidableEq, Repr

/-- A request, with the fields of its context that the callbacks read. -/
structure Flight where
  site : SiteConfig
  selectedOrigin : Option OriginConfig := none
  /-- A `u32` that stays below the number of retries while there is another attempt. -/
  balancerTried : Nat := 0
  phase : Phase := .ready
  attempts : Nat := 0
  due : List Report := []
  reported : List Report := []
  lost : List Report := []
deriving DecidableEq, Repr

/-- The status that `logging` takes for a failure; 0 stands for no response. -/
def failed (status : Nat) : Bool := 500 ≤ status || status = 0

def HealthChecker.record {ε : Type} (p : Profile) (self : HealthChecker) (siteId originId : Str)
    (success : Bool) : Exec ε HealthChecker :=
  if success then self.recordSuccess p siteId originId else self.recordFailure p siteId originId

namespace Flight

def report (f : Flight) (success : Bool) : List Report :=
  f.selectedOrigin.toList.map fun o => ⟨f.attempts, o.id, success⟩

/-- The health checker has been told of the present attempt. -/
def told (f : Flight) (success : Bool) : Flight :=
  { f with reported := f.reported ++ f.report success }

def record (p : Profile) (success : Bool) (f : Flight) (b : DynamicBalancer) :
    Exec Empty (DynamicBalancer × Flight) := do
  match f.selectedOrigin with
  | none => return (b, f)
  | some o =>
    let health ← b.health.record p f.site.siteId o.id success
    return ({ b with health }, f.told success)

/-- A callback that panics takes the request with it. -/
def die (f : Flight) : Flight := { f with phase := .finished }

/-- The first part of `upstream_peer`. -/
def upstreamPeer (p : Profile) (world : Surroundings) (f : Flight) (b : DynamicBalancer) :
    DynamicBalancer × Flight :=
  if f.phase = .ready then
    match b.selectPeer p world f.site with
    | .ok (some o, b') => (b', { f with phase := .resolving o })
    | .ok (none, b') => (b', { f with phase := .ending })
    | .error _ => (b, f.die)
  else (b, f)

def sentTo (o : OriginConfig) (f : Flight) : Flight :=
  { f with selectedOrigin := some o, attempts := f.attempts + 1, phase := .attempting }

/-- The second part, when the name server has answered. -/
def resolved (found : Bool) (f : Flight) (b : DynamicBalancer) : DynamicBalancer × Flight :=
  match f.phase with
  | .resolving o =>
    if found then (b.connInc f.site.siteId o.id, f.sentTo o)
    else (b, { f with phase := .ending })
  | _ => (b, f)

def tryFailed (f : Flight) : Flight :=
  { f with balancerTried := f.balancerTried + 1, due := f.due ++ f.report false }

def retry (f : Flight) : Flight :=
  { f with
    phase := if f.balancerTried < f.site.loadBalancer.retries.toNat then .ready else .ending }

def failToConnect (p : Profile) (f : Flight) (b : DynamicBalancer) : DynamicBalancer × Flight :=
  if f.phase = .attempting then
    match f.tryFailed.record p false b with
    | .error _ => (b, f.tryFailed.die)
    | .ok (b', f') => (b', f'.retry)
  else (b, f)

/-- The origin closed a connection from the pool before it answered. -/
def lostReused (f : Flight) (b : DynamicBalancer) : DynamicBalancer × Flight :=
  if f.phase = .attempting then
    (b, { f with
      phase := .ready
      due := f.due ++ f.report false
      lost := f.lost ++ f.report false })
  else (b, f)

/-- When the request can end with the status. -/
def mayFinish (f : Flight) (status : Nat) : Bool :=
  f.phase = .attempting ||
    (f.phase = .ready || f.phase = .ending) && (f.selectedOrigin.isNone || failed status)

/-- An attempt that is not over yet is due a report. -/
def settle (conduct : Conduct) (f : Flight) : Flight :=
  if f.phase = .attempting then { f with due := f.due ++ f.report conduct.success } else f

def logging (p : Profile) (status : Nat) (conduct : Conduct) (now : Nat)
    (latencyMs : Float) (f : Flight) (b : DynamicBalancer) : DynamicBalancer × Flight :=
  if f.mayFinish status then
    match (f.settle conduct).record p (!failed status) b with
    | .error _ => (b, (f.settle conduct).die)
    | .ok (b', f') =>
      match f'.selectedOrigin with
      | none => (b', f'.die)
      | some o =>
        ((b'.connDec f'.site.siteId o.id).recordResponse f'.site.siteId o.id now
          latencyMs (failed status)
          f'.site.loadBalancer.adaptiveWeight.windowSize, f'.die)
  else (b, f)

end Flight

/-- The balancer and all requests there have been. -/
structure Traffic where
  balancer : DynamicBalancer
  flights : List Flight

inductive TrafficEvent where
  | arrive (site : SiteConfig)
  | select (i : Nat) (world : Surroundings)
  | resolved (i : Nat) (found : Bool)
  | connectFailed (i : Nat)
  | lostReused (i : Nat)
  | finish (i status : Nat) (conduct : Conduct) (now : Nat) (latencyMs : Float)
  /-- by the administrator, or by a probe -/
  | setStatus (siteId originId : Str) (healthy : Bool)

namespace Traffic

def start (health : HealthChecker) : Traffic := ⟨.new health, []⟩

def update (s : Traffic) (i : Nat)
    (callback : Flight → DynamicBalancer → DynamicBalancer × Flight) :
    Traffic :=
  match s.flights[i]? with
  | none => s
  | some f => ⟨(callback f s.balancer).1, s.flights.set i (callback f s.balancer).2⟩

def step (p : Profile) (s : Traffic) : TrafficEvent → Traffic
  | .arrive site => { s with flights := s.flights ++ [{ site }] }
  | .select i world => s.update i (Flight.upstreamPeer p world)
  | .resolved i found => s.update i (Flight.resolved found)
  | .connectFailed i => s.update i (Flight.failToConnect p)
  | .lostReused i => s.update i Flight.lostReused
  | .finish i status conduct now latencyMs =>
      s.update i (Flight.logging p status conduct now latencyMs)
  | .setStatus siteId originId healthy =>
    { s with
      balancer := { s.balancer with health := s.balancer.health.setStatus siteId originId healthy }
        }

def run (p : Profile) (events : List TrafficEvent) (s : Traffic) :
    Traffic := events.foldl (step p) s

variable {s : Traffic} {i : Nat} {f : Flight}
  {callback : Flight → DynamicBalancer → DynamicBalancer × Flight}

theorem update_eq (h : s.flights[i]? = some f) :
    s.update i callback = ⟨(callback f s.balancer).1, s.flights.set i (callback f s.balancer).2⟩ :=
      by
  rw [update, h]

theorem update_of_none (h : s.flights[i]? = none) : s.update i callback = s := by
  rw [update, h]

theorem forall_update {Q : Flight → Prop} (hQ : ∀ g ∈ s.flights, Q g)
    (hcallback : ∀ f, s.flights[i]? = some f → Q f → Q (callback f s.balancer).2) :
    ∀ g ∈ (s.update i callback).flights, Q g := by
  intro g hg
  cases hf : s.flights[i]? with
  | none =>
    rw [update_of_none hf] at hg
    exact hQ g hg
  | some f =>
    rw [update_eq hf] at hg
    rcases List.mem_or_eq_of_mem_set hg with hg | rfl
    · exact hQ g hg
    · exact hcallback f hf (hQ f (List.mem_of_getElem? hf))

theorem countP_set_add (q : Flight → Bool) (hf : s.flights[i]? = some f) (f' : Flight) :
    (s.flights.set i f').countP q + (if q f then 1 else 0) =
      s.flights.countP q + (if q f' then 1 else 0) := by
  obtain ⟨hi, rfl⟩ := List.getElem?_eq_some_iff.1 hf
  have hle := List.boole_getElem_le_countP (p := q) hi
  rw [List.countP_set hi]
  omega

end Traffic

/-! ## What the callbacks note -/

/-- Whether a count of the health checker can go up by one. -/
def Countable (p : Profile) (n : Nat) : Prop := p = .release ∨ n + 1 < 2 ^ 32

instance (p : Profile) (n : Nat) : Decidable (Countable p n) :=
  inferInstanceAs (Decidable (p = .release ∨ n + 1 < 2 ^ 32))

def countUp (n : Nat) : Nat := (n + 1) % 2 ^ 32

variable {p : Profile} {ε : Type}

theorem add_one_eq (n : Nat) :
    (p.add 32 n 1 : Exec ε Nat) = if Countable p n then .ok (countUp n) else crash .overflow := by
  unfold Profile.add
  split
  next hlt => rw [if_pos (.inr hlt), countUp, Nat.mod_eq_of_lt hlt]
  next hle =>
    cases p with
    | dev => exact (if_neg (not_or.2 ⟨nofun, hle⟩)).symm
    | release => exact (if_pos (.inl rfl)).symm

def OriginHealth.counter (h : OriginHealth) (success : Bool) : Nat :=
  if success then h.consecutiveSuccesses else h.consecutiveFailures

def HealthChecker.noted (self : HealthChecker) (h : OriginHealth) (success : Bool) : OriginHealth :=
  let count := countUp (h.counter success)
  if success then
    { h with
      consecutiveFailures := 0
      consecutiveSuccesses := count
      healthy := h.healthy || self.healthyThreshold.toNat ≤ count }
  else
    { h with
      consecutiveSuccesses := 0
      consecutiveFailures := count
      healthy := h.healthy && !(self.unhealthyThreshold.toNat ≤ count : Bool) }

variable {self : HealthChecker} {siteId originId : Str}

theorem HealthChecker.record_eq (success : Bool) :
    (self.record p siteId originId success : Exec ε HealthChecker) =
      if Countable p ((self.entry (makeKey siteId originId)).counter success) then
        .ok (self.put (makeKey siteId originId)
          (self.noted (self.entry (makeKey siteId originId)) success))
      else crash .overflow := by
  cases success with
  | true =>
    rw [record, if_pos rfl, recordSuccess, add_one_eq]
    exact apply_ite (· >>= _) ..
  | false =>
    rw [record, if_neg Bool.false_ne_true, recordFailure, add_one_eq]
    exact apply_ite (· >>= _) ..

namespace Flight

variable {p : Profile} {success : Bool} {f : Flight} {b : DynamicBalancer} {o : OriginConfig}

def health (f : Flight) (o : OriginConfig) (b : DynamicBalancer) : OriginHealth :=
  b.health.entry (makeKey f.site.siteId o.id)

/-- The balancer once the outcome at the origin is noted. -/
def noted (f : Flight) (o : OriginConfig) (success : Bool) (b : DynamicBalancer) :
    DynamicBalancer :=
  { b with
    health := b.health.put (makeKey f.site.siteId o.id) (b.health.noted (f.health o b) success) }

theorem record_of_none (h : f.selectedOrigin = none) : f.record p success b = .ok (b, f) := by
  rw [record, h]
  rfl

theorem record_of_some (ho : f.selectedOrigin = some o) : f.record p success b =
      if Countable p ((f.health o b).counter success) then .ok (f.noted o success b, f.told success)
      else crash .overflow := by
  unfold record
  rw [ho]
  dsimp only
  rw [HealthChecker.record_eq]
  exact apply_ite (· >>= _) ..

theorem resolved_eq (hphase : f.phase = .resolving o) :
    f.resolved true b = (b.connInc f.site.siteId o.id, f.sentTo o) := by
  rw [resolved, hphase]
  rfl

section

variable (hphase : f.phase = .attempting)
include hphase

theorem failToConnect_of_none (ho : f.selectedOrigin = none) :
    f.failToConnect p b = (b, f.tryFailed.retry) := by
  rw [failToConnect, if_pos hphase, record_of_none (f := f.tryFailed) ho]

theorem failToConnect_of_some (ho : f.selectedOrigin = some o) : f.failToConnect p b =
      if Countable p (f.health o b).consecutiveFailures then
        (f.noted o false b, (f.tryFailed.told false).retry)
      else (b, f.tryFailed.die) := by
  have hrecord : f.tryFailed.record p false b =
      if Countable p (f.health o b).consecutiveFailures then .ok _ else _ := record_of_some ho
  rw [failToConnect, if_pos hphase, hrecord]
  split_ifs <;> rfl

end

theorem failToConnect_of_not (hphase : f.phase ≠ .attempting) : f.failToConnect p b = (b, f) :=
  if_neg hphase

theorem retry_live : f.retry.phase ≠ .finished := by
  show (if f.balancerTried < f.site.loadBalancer.retries.toNat then Phase.ready else .ending) ≠
    .finished
  split <;> nofun

theorem retry_ne_attempting : f.retry.phase ≠ .attempting := by
  show (if f.balancerTried < f.site.loadBalancer.retries.toNat then Phase.ready else .ending) ≠
    .attempting
  split <;> nofun

variable {status : Nat} {conduct : Conduct} {now : Nat} {latencyMs : Float}

theorem live_of_mayFinish (h : f.mayFinish status = true) : f.phase ≠ .finished := by
  intro hover
  simp [mayFinish, hover] at h

theorem failed_of_mayFinish (h : f.mayFinish status = true) (hphase : f.phase ≠ .attempting)
    (ho : f.selectedOrigin = some o) : failed status = true := by
  simp [mayFinish, hphase, ho] at h
  exact h.2

@[simp] theorem settle_site : (f.settle conduct).site = f.site := by
  unfold settle
  split <;> rfl

@[simp] theorem settle_selectedOrigin : (f.settle conduct).selectedOrigin = f.selectedOrigin := by
  unfold settle
  split <;> rfl

section

variable (hfinish : f.mayFinish status = true)
include hfinish

theorem logging_of_none (ho : f.selectedOrigin = none) :
    f.logging p status conduct now latencyMs b = (b, (f.settle conduct).die) := by
  have ho' : (f.settle conduct).selectedOrigin = none := settle_selectedOrigin.trans ho
  rw [logging, if_pos hfinish, record_of_none ho']
  simp only [ho']

theorem logging_of_some (ho : f.selectedOrigin = some o) :
    f.logging p status conduct now latencyMs b =
      if Countable p ((f.health o b).counter (!failed status)) then
        (((f.noted o (!failed status) b).connDec f.site.siteId o.id).recordResponse
          f.site.siteId o.id now
            latencyMs (failed status) f.site.loadBalancer.adaptiveWeight.windowSize,
          ((f.settle conduct).told (!failed status)).die)
      else (b, (f.settle conduct).die) := by
  have ho' : (f.settle conduct).selectedOrigin = some o := settle_selectedOrigin.trans ho
  rw [logging, if_pos hfinish, record_of_some ho', health, settle_site, ← health]
  split_ifs
  · simp only [told, ho', settle_site, noted, health]
  · rfl

end

theorem logging_of_not (hfinish : f.mayFinish status ≠ true) :
    f.logging p status conduct now latencyMs b = (b, f) := if_neg hfinish

/-- Only `upstream_peer` changes where the latest attempt is. -/
def SameAttempt (f f' : Flight) : Prop := f'.site = f.site ∧ f'.selectedOrigin = f.selectedOrigin

theorem sameAttempt_upstreamPeer (world : Surroundings) :
    SameAttempt f (f.upstreamPeer p world b).2 := by
  unfold upstreamPeer
  split
  · split <;> exact ⟨rfl, rfl⟩
  · exact ⟨rfl, rfl⟩

theorem sameAttempt_failToConnect : SameAttempt f (f.failToConnect p b).2 := by
  by_cases hphase : f.phase = .attempting
  · cases ho : f.selectedOrigin with
    | none =>
      rw [failToConnect_of_none hphase ho]
      exact ⟨rfl, rfl⟩
    | some o =>
      rw [failToConnect_of_some hphase ho]
      split <;> exact ⟨rfl, rfl⟩
  · rw [failToConnect_of_not hphase]
    exact ⟨rfl, rfl⟩

theorem sameAttempt_lostReused : SameAttempt f (f.lostReused b).2 := by
  unfold lostReused
  split <;> exact ⟨rfl, rfl⟩

theorem sameAttempt_logging : SameAttempt f (f.logging p status conduct now latencyMs b).2 := by
  by_cases hfinish : f.mayFinish status = true
  · cases ho : f.selectedOrigin with
    | none =>
      rw [logging_of_none hfinish ho]
      exact ⟨settle_site, settle_selectedOrigin⟩
    | some o =>
      rw [logging_of_some hfinish ho]
      split <;> exact ⟨settle_site, settle_selectedOrigin⟩
  · rw [logging_of_not hfinish]
    exact ⟨rfl, rfl⟩

end Flight

def pairedSite : SiteConfig where
  siteId := "s"
  origins := [{ id := "a", host := "a.test", weight := 1 },
    { id := "b", host := "b.test", weight := 1 }]

def quietWorld : Surroundings where
  hash := fun _ => 0
  order := SortUnstable.insertion _
  clientIp := none
  random := 0
  now := 0

end Nozdormu.Balancer
