import Mathlib.Logic.Function.Basic
import Nozdormu.Data.Separator
import Nozdormu.Rust.BinarySearch
import Nozdormu.Rust.Float
import Nozdormu.Rust.Str

/-!
# Choosing an origin

`cdn-proxy/src/health.rs` and `cdn-proxy/src/balancer.rs`: which origins of a site count as healthy,
what each of them weighs at the moment, and the four algorithms that choose one. As long as there is
an origin in service, one is chosen (`selectPeer_available`).
-/

namespace Nozdormu.Balancer

open Rust Data List

inductive OriginProtocol where
  | http
  | https
deriving DecidableEq, Repr

structure OriginConfig where
  id : Str
  host : Str
  port : UInt16 := 80
  weight : UInt32 := 10
  protocol : OriginProtocol := .http
  backup : Bool := false
  enabled : Bool := true
  sni : Option Str := none
  verifySsl : Bool := false
deriving DecidableEq, Repr

inductive LbAlgorithm where
  | roundRobin
  | ipHash
  | random
  | leastConn
deriving DecidableEq, Repr

inductive HealthCheckType where
  | http
  | tcp
deriving DecidableEq, Repr

structure HealthCheckSiteConfig where
  enabled : Bool := true
  type : HealthCheckType := .http
  path : Str := "/health"
  interval : UInt64 := 10
  timeout : UInt64 := 5
  healthyThreshold : UInt32 := 2
  unhealthyThreshold : UInt32 := 3
  /-- none: any of 200 to 299 -/
  expectedCodes : Option (List UInt16) := none
  hostHeader : Option Str := none
deriving DecidableEq, Repr

structure AdaptiveWeightConfig where
  enabled : Bool := false
  windowSize : Nat := 100
  latencyThresholdMs : Float := 500.0
  errorThreshold : Float := 0.1
deriving DecidableEq, Repr

structure LoadBalancerConfig where
  algorithm : LbAlgorithm := .roundRobin
  retries : UInt32 := 2
  healthCheck : HealthCheckSiteConfig := {}
  adaptiveWeight : AdaptiveWeightConfig := {}
deriving DecidableEq, Repr

/-- The part of a site that has to do with its origins. -/
structure SiteConfig where
  siteId : Str
  enabled : Bool := true
  origins : List OriginConfig
  loadBalancer : LoadBalancerConfig := {}
deriving DecidableEq, Repr

def makeKey (siteId originId : Str) : Str := siteId ++ '\x00' :: originId

theorem makeKey_inj {siteId originId siteId' originId' : Str} (hsite : '\x00' ∉ siteId)
    (horigin : '\x00' ∉ originId) (h : makeKey siteId' originId' = makeKey siteId originId) :
    siteId' = siteId ∧ originId' = originId := by
  rcases append_cons_cases hsite h.symm with heq | ⟨m, -, hlater⟩
  · exact heq
  · exact absurd (hlater ▸ mem_append_right m mem_cons_self) horigin

theorem exists_same_key {siteId originId : Str} (h : ¬ ('\x00' ∉ siteId ∧ '\x00' ∉ originId)) :
    ∃ siteId' originId', (siteId', originId') ≠ (siteId, originId) ∧
      makeKey siteId' originId' = makeKey siteId originId := by
  rw [not_and_or, not_not, not_not] at h
  rcases h with h | h
  · obtain ⟨x, y, rfl⟩ := append_of_mem h
    exact ⟨x, y ++ '\x00' :: originId, by simp, by simp [makeKey]⟩
  · obtain ⟨x, y, rfl⟩ := append_of_mem h
    exact ⟨siteId ++ '\x00' :: x, y, by simp, by simp [makeKey]⟩

/-! ## `health.rs` -/

structure OriginHealth where
  healthy : Bool := true
  consecutiveFailures : Nat := 0
  consecutiveSuccesses : Nat := 0
  /-- The last probe; when it was is left out. -/
  lastActiveSuccess : Option Bool := none
deriving DecidableEq, Repr

structure HealthChecker where
  state : Str → Option OriginHealth
  unhealthyThreshold : UInt32
  healthyThreshold : UInt32

namespace HealthChecker

def new (unhealthyThreshold healthyThreshold : UInt32) : HealthChecker :=
  ⟨fun _ => none, unhealthyThreshold, healthyThreshold⟩

variable (self : HealthChecker)

/-- `entry(key).or_default()`. -/
def entry (key : Str) : OriginHealth := (self.state key).getD {}

def put (key : Str) (h : OriginHealth) : HealthChecker :=
  { self with state := Function.update self.state key (some h) }

variable (siteId originId : Str)

/-- An origin that nothing is known of is healthy. -/
def isHealthy : Bool :=
  (self.entry (makeKey siteId originId)).healthy

def recordSuccess {ε : Type} (p : Profile) (self : HealthChecker) (siteId originId : Str) :
    Exec ε HealthChecker := do
  let key := makeKey siteId originId
  let h := self.entry key
  let successes ← p.add 32 h.consecutiveSuccesses 1
  return self.put key
    { h with
      consecutiveFailures := 0
      consecutiveSuccesses := successes
      healthy := h.healthy || self.healthyThreshold.toNat ≤ successes }

def recordFailure {ε : Type} (p : Profile) (self : HealthChecker) (siteId originId : Str) :
    Exec ε HealthChecker := do
  let key := makeKey siteId originId
  let h := self.entry key
  let failures ← p.add 32 h.consecutiveFailures 1
  return self.put key
    { h with
      consecutiveSuccesses := 0
      consecutiveFailures := failures
      healthy := h.healthy && !(self.unhealthyThreshold.toNat ≤ failures : Bool) }

def setStatus (healthy : Bool) : HealthChecker :=
  let key := makeKey siteId originId
  self.put key
    { self.entry key with healthy, consecutiveFailures := 0, consecutiveSuccesses := 0 }

def recordActiveCheck (success : Bool) : HealthChecker :=
  let key := makeKey siteId originId
  self.put key { self.entry key with lastActiveSuccess := some success }

@[simp] theorem entry_put_self (key : Str) (h : OriginHealth) : (self.put key h).entry key = h := by
  show (Function.update self.state key (some h) key).getD {} = h
  rw [Function.update_self]
  rfl

theorem entry_put_of_ne {key key' : Str} (h : OriginHealth) (hne : key' ≠ key) :
    (self.put key h).entry key' = self.entry key' := by
  show (Function.update self.state key (some h) key').getD {} = _
  rw [Function.update_of_ne hne]
  rfl

end HealthChecker

structure OriginStats where
  /-- Latencies in milliseconds, and whether it was an error. -/
  samples : List (Float × Bool)
  windowSize : Nat
  /-- Milliseconds. -/
  lastUpdate : Nat

/-- 1 up to the lower bound, 0.1 from the upper bound on. -/
def penaltyFactor (value low high : Float) : Float :=
  if value ≤ low then 1.0
  else if high ≤ value then 0.1
  else 1.0 - 0.9 * (value - low) / (high - low)

def percentileLatency {ε : Type} (samples : List (Float × Bool)) (pct : Float) : Exec ε Float :=
  let latencies := (samples.map (·.1)).insertionSort (· ≤ ·)
  let idx := ceilU64 (latencies.length.toFloat * pct) - 1
  index latencies (min idx (latencies.length - 1))

def computeMultiplier {ε : Type} (stats : OriginStats) (config : AdaptiveWeightConfig) :
    Exec ε Float := do
  let latencyFactor ←
    if stats.samples.length < 10 then pure 1.0
    else do
      let p99 ← percentileLatency stats.samples 0.99
      pure (penaltyFactor p99 config.latencyThresholdMs (config.latencyThresholdMs * 4.0))
  let errorRate := (stats.samples.filter (·.2)).length.toFloat / stats.samples.length.toFloat
  return latencyFactor * penaltyFactor errorRate config.errorThreshold (config.errorThreshold * 4.0)

def totalWeight {ε : Type} (p : Profile) (weights : List UInt32) : Exec ε Nat :=
  weights.foldlM (fun sum w => p.add 32 sum w.toNat) 0

/-- The first candidate whose share reaches over the target. -/
def walk {ε : Type} (p : Profile) (target : Nat) : (i cumulative : Nat) → (weights : List UInt32) →
    Exec ε (Option Nat)
  | _, _, [] => return none
  | i, cumulative, w :: weights => do
    let cumulative ← p.add 32 cumulative w.toNat
    if target < cumulative then return some i
    else walk p target (i + 1) cumulative weights

/-- Behind the loop stands `candidates.last().unwrap()`. -/
def pickWeighted {ε : Type} (p : Profile) (target : Nat) (weights : List UInt32) : Exec ε Nat := do
  match ← walk p target 0 0 weights with
  | some i => return i
  | none => if weights.isEmpty then crash .index else return weights.length - 1

def selectRoundRobin {ε : Type} (p : Profile) (weights : List UInt32) (counter : Nat) :
    Exec ε (Nat × Nat) := do
  let total ← totalWeight p weights
  let next := (counter + 1) % 2 ^ 64
  if total = 0 then return (← umod counter weights.length, next)
  else return (← pickWeighted p (counter % total) weights, next)

def vnodesPerWeight : Nat := 40

def vnodeKey (id : Str) (i : Nat) : Str := id ++ '-' :: digits i

/-- The points of all virtual nodes, each with the position of its candidate. -/
def ringNodes {ε : Type} (p : Profile) (hash : Str → UInt64) : (idx : Nat) →
    (candidates : List (OriginConfig × UInt32)) → Exec ε (List (UInt64 × Nat))
  | _, [] => return []
  | idx, (origin, weight) :: candidates => do
    let vnodes ← p.mul 32 weight.toNat vnodesPerWeight
    let nodes := (List.range vnodes).map fun i => (hash (vnodeKey origin.id i), idx)
    return nodes ++ (← ringNodes p hash (idx + 1) candidates)

abbrev RingSort := SortUnstable fun node : UInt64 × Nat => node.1.toNat

def buildHashRingWeighted {ε : Type} (p : Profile) (hash : Str → UInt64) (order : RingSort)
    (candidates : List (OriginConfig × UInt32)) : Exec ε (List (UInt64 × Nat)) := do
  return order.sort (← ringNodes p hash 0 candidates)

/-- The position in the ring of the first node from the point on, around the end. -/
def ringPosition (ring : List (UInt64 × Nat)) (point : UInt64) : Nat :=
  match binarySearchBy (fun node => compare node.1.toNat point.toNat) ring with
  | .ok i => i
  | .error i => if ring.length ≤ i then 0 else i

def selectIpHash {ε : Type} (p : Profile) (hash : Str → UInt64) (order : RingSort)
    (candidates : List (OriginConfig × UInt32)) (ip : Str) : Exec ε Nat := do
  let ring ← buildHashRingWeighted p hash order candidates
  if ring.isEmpty then umod (hash ip).toNat candidates.length
  else return (← index ring (ringPosition ring (hash ip))).2

/-- `fastrand` takes a random number modulo the bound, and 0 for the bound 0. -/
def selectWeightedRandom {ε : Type} (p : Profile) (weights : List UInt32) (random : UInt64) :
    Exec ε Nat := do
  let total ← totalWeight p weights
  if total = 0 then return random.toNat % weights.length
  else pickWeighted p (random.toNat % 2 ^ 32 % total) weights

/-- The fewest connections, then the greatest weight, then the first. -/
def selectLeastConn (conns : Str → Nat) (candidates : List (OriginConfig × UInt32)) : Nat :=
  let best := candidates.zipIdx.foldl (fun best (c : (OriginConfig × UInt32) × Nat) =>
      match best with
      | none => some (c.2, conns c.1.1.id, c.1.2)
      | some (idx, bestConns, bestWeight) =>
        if conns c.1.1.id < bestConns ∨ conns c.1.1.id = bestConns ∧ bestWeight < c.1.2 then
          some (c.2, conns c.1.1.id, c.1.2)
        else some (idx, bestConns, bestWeight))
    none
  (best.map (·.1)).getD 0

/-! ## `DynamicBalancer` -/

structure DynamicBalancer where
  health : HealthChecker
  rrCounter : Nat
  /-- Counters of 32 bits. -/
  activeConns : Str → Option Nat
  originStats : Str → Option OriginStats

/-- What a selection takes from outside. -/
structure Surroundings where
  /-- `DefaultHasher` -/
  hash : Str → UInt64
  order : RingSort
  clientIp : Option Str
  random : UInt64
  /-- Milliseconds. -/
  now : Nat

namespace DynamicBalancer

variable (self : DynamicBalancer)

def new (health : HealthChecker) : DynamicBalancer := ⟨health, 0, fun _ => none, fun _ => none⟩

variable (siteId originId : Str)

/-- `fetch_add` wraps around. -/
def connInc : DynamicBalancer :=
  let key := makeKey siteId originId
  { self with
    activeConns := Function.update self.activeConns key
      (some (((self.activeConns key).getD 0 + 1) % 2 ^ 32)) }

/-- A count of 0 stays. -/
def connDec : DynamicBalancer :=
  let key := makeKey siteId originId
  match self.activeConns key with
  | some n => { self with activeConns := Function.update self.activeConns key (some (n - 1)) }
  | none => self

def activeConnCount : Nat :=
  (self.activeConns (makeKey siteId originId)).getD 0

def recordResponse (now : Nat) (latencyMs : Float) (isError : Bool)
    (windowSize : Nat) : DynamicBalancer :=
  let key := makeKey siteId originId
  let stats := (self.originStats key).getD ⟨[], windowSize, now⟩
  let samples := if stats.windowSize ≤ stats.samples.length then stats.samples.tail
    else stats.samples
  { self with
    originStats := Function.update self.originStats key
      (some { stats with samples := samples ++ [(latencyMs, isError)], lastUpdate := now }) }

/-- The weight as it is configured, if there is nothing recent to go by. -/
def effectiveWeight {ε : Type} (now : Nat) (siteId : Str) (origin : OriginConfig)
    (config : AdaptiveWeightConfig) : Exec ε UInt32 := do
  if !config.enabled then return origin.weight
  else
    match self.originStats (makeKey siteId origin.id) with
    | none => return origin.weight
    | some stats =>
      if 60 < (now - stats.lastUpdate) / 1000 ∨ stats.samples.isEmpty then return origin.weight
      else
        let multiplier ← computeMultiplier stats config
        return max 1 (origin.weight.toFloat * multiplier).toUInt32

/-- The healthy origins, of which those that are no backup come first. -/
def candidates (site : SiteConfig) : List OriginConfig :=
  let healthy (backup : Bool) :=
    (site.origins.filter fun o => o.enabled && (o.backup == backup)).filter
    fun o => self.health.isHealthy site.siteId o.id
  if (healthy false).isEmpty then healthy true else healthy false

def choose {ε : Type} (p : Profile) (world : Surroundings) (site : SiteConfig)
    (candidates : List (OriginConfig × UInt32)) : Exec ε (Nat × DynamicBalancer) := do
  match site.loadBalancer.algorithm with
  | .roundRobin => do
    let (idx, counter) ← selectRoundRobin p (candidates.map (·.2)) self.rrCounter
    return (idx, { self with rrCounter := counter })
  | .ipHash => do
    let ip := world.clientIp.getD "0.0.0.0"
    return (← selectIpHash p world.hash world.order candidates ip, self)
  | .random => return (← selectWeightedRandom p (candidates.map (·.2)) world.random, self)
  | .leastConn => return (selectLeastConn (self.activeConnCount site.siteId) candidates, self)

/-- The origin, or none for the error `ConnectProxyFailure`, and the balancer afterwards: up to
where the function waits for the address of the host. -/
def selectPeer (p : Profile) (world : Surroundings) (site : SiteConfig) :
    Exec Empty (Option OriginConfig × DynamicBalancer) := do
  let candidates := self.candidates site
  if candidates.isEmpty then return (none, self)
  else
    let weights ← candidates.mapM fun o =>
      self.effectiveWeight world.now site.siteId o site.loadBalancer.adaptiveWeight
    let (idx, balancer) ← self.choose p world site (candidates.zip weights)
    return (some (← index candidates idx), balancer)

variable {self}

variable {site : SiteConfig} {balancer : DynamicBalancer}

theorem of_selectPeer {p : Profile} {world : Surroundings} {selected : Option OriginConfig}
    (h : self.selectPeer p world site = .ok (selected, balancer)) :
    balancer = { self with rrCounter := balancer.rrCounter } ∧
      ∀ o, selected = some o → o ∈ self.candidates site := by
  unfold selectPeer at h
  dsimp only at h
  split at h
  · obtain ⟨rfl, rfl⟩ := ok_pair_inj h
    exact ⟨rfl, nofun⟩
  obtain ⟨weights, -, h⟩ := bind_eq_ok.1 h
  obtain ⟨⟨idx, balancer'⟩, hchoose, h⟩ := bind_eq_ok.1 h
  obtain ⟨origin, horigin, h⟩ := bind_eq_ok.1 h
  have hmem : origin ∈ self.candidates site := by
    unfold index at horigin
    split at horigin
    next o hget =>
      cases horigin
      exact mem_of_getElem? hget
    next => cases horigin
  obtain ⟨rfl, rfl⟩ := ok_pair_inj h
  refine ⟨?_, fun o ho => Option.some.inj ho ▸ hmem⟩
  -- choosing moves nothing but the counter of round robin
  unfold choose at hchoose
  cases hlb : site.loadBalancer.algorithm with
  | roundRobin | ipHash | random =>
    simp only [hlb] at hchoose
    obtain ⟨r, -, hr⟩ := bind_eq_ok.1 hchoose
    obtain ⟨-, rfl⟩ := ok_pair_inj hr
    rfl
  | leastConn =>
    simp only [hlb] at hchoose
    obtain ⟨-, rfl⟩ := ok_pair_inj hchoose
    rfl

end DynamicBalancer

/-! ## A selection comes to an end -/

/-- The computation returns one of `n` positions. -/
def Picks (x : Exec Empty Nat) (n : Nat) : Prop := ∃ i < n, x = .ok i

theorem walk_release (target : Nat) : ∀ (weights : List UInt32) (i cumulative : Nat),
    ∃ r, walk .release target i cumulative weights = (.ok r : Exec Empty (Option Nat)) ∧
      ∀ j ∈ r, j < i + weights.length := by
  intro weights
  induction weights with
  | nil => exact fun i cumulative => ⟨none, rfl, nofun⟩
  | cons w weights ih =>
    intro i cumulative
    rw [walk, release_add, ok_bind, length_cons]
    split
    · exact ⟨some i, rfl, fun j hj => Option.some.inj hj ▸ by omega⟩
    · obtain ⟨r, hr, hlt⟩ := ih (i + 1) ((cumulative + w.toNat) % 2 ^ 32)
      exact ⟨r, hr, fun j hj => by have := hlt j hj; omega⟩

theorem picks_pickWeighted (target : Nat) {weights : List UInt32} (h : 0 < weights.length) :
    Picks (pickWeighted .release target weights) weights.length := by
  obtain ⟨r, hr, hlt⟩ := walk_release target weights 0 0
  unfold pickWeighted
  rw [hr, ok_bind]
  cases r with
  | some i => exact ⟨i, by simpa using hlt i rfl, rfl⟩
  | none =>
    refine ⟨weights.length - 1, by omega, ?_⟩
    dsimp only
    rw [if_neg (by rw [isEmpty_iff_length_eq_zero]; omega)]
    rfl

theorem totalWeight_release (weights : List UInt32) :
    Returns (totalWeight .release weights : Exec Empty Nat) := by
  unfold totalWeight
  rw [foldlM_add .release weights (by decide)]
  exact returns_release_add ..

theorem picks_selectIpHash (hash : Str → UInt64) (order : RingSort) (ip : Str)
    {candidates : List (OriginConfig × UInt32)} (h : 0 < candidates.length) :
    Picks (selectIpHash .release hash order candidates ip) candidates.length := by
  have hnodes : ∀ (candidates : List (OriginConfig × UInt32)) (idx : Nat), ∃ nodes,
      (ringNodes .release hash idx candidates : Exec Empty _) = .ok nodes ∧
        ∀ node ∈ nodes, node.2 < idx + candidates.length := by
    intro candidates
    induction candidates with
    | nil => exact fun idx => ⟨[], rfl, nofun⟩
    | cons c candidates ih =>
      intro idx
      obtain ⟨origin, weight⟩ := c
      obtain ⟨n, hn⟩ := returns_release_mul 32 weight.toNat vnodesPerWeight
      obtain ⟨nodes, hnodes, hlt⟩ := ih (idx + 1)
      rw [ringNodes, hn, ok_bind, hnodes, length_cons]
      refine ⟨_, rfl, fun node hnode => ?_⟩
      rcases mem_append.1 hnode with hown | hrest
      · obtain ⟨i, -, rfl⟩ := mem_map.1 hown
        dsimp only
        omega
      · have := hlt node hrest
        omega
  obtain ⟨nodes, hring, hlt⟩ := hnodes candidates 0
  unfold selectIpHash buildHashRingWeighted
  rw [hring, ok_bind, pure_eq_ok, ok_bind]
  split
  · exact ⟨_, Nat.mod_lt _ h, umod_ok (by omega)⟩
  next hne =>
    have hposition : ringPosition (order.sort nodes) (hash ip) < (order.sort nodes).length := by
      unfold ringPosition
      split
      next i hi =>
        obtain ⟨y, hy, -⟩ := binarySearchBy_ok hi
        exact (List.getElem?_eq_some_iff.1 hy).1
      next i hi =>
        have hpos : 0 < (order.sort nodes).length := length_pos_iff.2 (by simpa using hne)
        split <;> omega
    refine ⟨_, ?_, by rw [index_ok hposition]; rfl⟩
    simpa using hlt _ ((order.perm nodes).mem_iff.1 (getElem_mem hposition))

theorem selectLeastConn_lt (conns : Str → Nat) {candidates : List (OriginConfig × UInt32)}
    (h : 0 < candidates.length) : selectLeastConn conns candidates < candidates.length := by
  unfold selectLeastConn
  dsimp only
  generalize hbest : candidates.zipIdx.foldl _ (none : Option (Nat × Nat × UInt32)) = best
  have hlt : ∀ b ∈ best, b.1 < candidates.length := by
    rw [← hbest]
    refine List.foldlRecOn (motive := fun best : Option (Nat × Nat × UInt32) => ∀ b ∈ best,
      b.1 < candidates.length)
      _ _ nofun fun best ih c hc => ?_
    have hown : c.2 < candidates.length := by simpa using snd_lt_of_mem_zipIdx hc
    split
    · exact fun b hb => Option.some.inj hb ▸ hown
    · split
      · exact fun b hb => Option.some.inj hb ▸ hown
      · exact ih
  cases best with
  | none => exact h
  | some b => exact hlt b rfl

namespace DynamicBalancer

variable (self : DynamicBalancer)

theorem returns_effectiveWeight (now : Nat) (siteId : Str) (origin : OriginConfig)
    (config : AdaptiveWeightConfig) :
    Returns (self.effectiveWeight now siteId origin config : Exec Empty UInt32) := by
  have hmultiplier : ∀ stats, Returns (computeMultiplier stats config : Exec Empty Float) := by
    intro stats
    unfold computeMultiplier
    dsimp only
    split
    · exact ⟨_, rfl⟩
    next hmany =>
      refine Returns.bind ⟨_, index_ok ?_⟩ fun _ _ => ⟨_, rfl⟩
      rw [length_insertionSort, length_map]
      omega
  unfold effectiveWeight
  split
  · exact ⟨_, rfl⟩
  split
  · exact ⟨_, rfl⟩
  split
  · exact ⟨_, rfl⟩
  · exact (hmultiplier _).bind fun _ _ => ⟨_, rfl⟩

theorem choose_release (world : Surroundings) (site : SiteConfig)
    {candidates : List (OriginConfig × UInt32)} (h : 0 < candidates.length) :
    ∃ i balancer, i < candidates.length ∧
      (self.choose .release world site candidates : Exec Empty _) = .ok (i, balancer) := by
  have hweights : 0 < (candidates.map (·.2)).length := by rwa [length_map]
  obtain ⟨total, htotal⟩ := totalWeight_release (candidates.map (·.2))
  have hpick := fun target => picks_pickWeighted target hweights
  simp only [length_map] at hpick
  unfold choose
  dsimp only
  split
  · unfold selectRoundRobin
    rw [htotal, ok_bind]
    dsimp only
    split
    · rw [umod_ok (by omega), length_map]
      exact ⟨_, _, Nat.mod_lt _ h, rfl⟩
    · obtain ⟨i, hi, hok⟩ := hpick (self.rrCounter % total)
      rw [hok]
      exact ⟨i, _, hi, rfl⟩
  · obtain ⟨i, hi, hok⟩ := picks_selectIpHash world.hash world.order
      (world.clientIp.getD "0.0.0.0") h
    rw [hok]
    exact ⟨i, _, hi, rfl⟩
  · unfold selectWeightedRandom
    rw [htotal, ok_bind]
    split
    · rw [length_map]
      exact ⟨_, _, Nat.mod_lt _ h, rfl⟩
    · obtain ⟨i, hi, hok⟩ := hpick (world.random.toNat % 2 ^ 32 % total)
      rw [hok]
      exact ⟨i, _, hi, rfl⟩
  · exact ⟨_, _, selectLeastConn_lt _ h, rfl⟩

/-- An origin in service. -/
def Available (site : SiteConfig) (o : OriginConfig) : Prop :=
  o ∈ site.origins ∧ o.enabled = true ∧ self.health.isHealthy site.siteId o.id = true

theorem candidates_spec (site : SiteConfig) :
    (∀ o ∈ self.candidates site, self.Available site o ∧
      (o.backup = true → ∀ o', self.Available site o' → o'.backup = true)) ∧
    (self.candidates site = [] → ∀ o, ¬ self.Available site o) := by
  have hmem : ∀ backup o, o ∈
      (site.origins.filter fun o => o.enabled && (o.backup == backup)).filter
      (fun o => self.health.isHealthy site.siteId o.id) ↔ self.Available site o ∧
        o.backup = backup := by
    intro backup o
    simp only [mem_filter, Bool.and_eq_true, beq_iff_eq, Available]
    tauto
  unfold candidates
  dsimp only
  split
  next hempty =>
    have hbackup : ∀ o, self.Available site o → o.backup = true := by
      intro o ho
      by_contra hnot
      have h := (hmem false o).2 ⟨ho, Bool.eq_false_iff.2 hnot⟩
      rw [isEmpty_iff.1 hempty] at h
      cases h
    refine ⟨fun o ho => ⟨((hmem true o).1 ho).1, fun _ => hbackup⟩, fun hnil o ho => ?_⟩
    have h := (hmem true o).2 ⟨ho, hbackup o ho⟩
    rw [hnil] at h
    cases h
  next hsome =>
    refine ⟨fun o ho => ?_, fun hnil => absurd (isEmpty_iff.2 hnil) hsome⟩
    obtain ⟨havailable, hprimary⟩ := (hmem false o).1 ho
    exact ⟨havailable, fun h => absurd (hprimary.symm.trans h) nofun⟩

/-- **There is always an origin.** Without overflow checks, every algorithm chooses an origin of the
site that is enabled and healthy, as long as there is one, and a backup only if all of these are
backups. -/
theorem selectPeer_available (world : Surroundings) (site : SiteConfig) :
    ∃ selected balancer, self.selectPeer .release world site = .ok (selected, balancer) ∧
      (selected = none → ∀ o, ¬ self.Available site o) ∧
      ∀ o, selected = some o → self.Available site o ∧
        (o.backup = true → ∀ o', self.Available site o' → o'.backup = true) := by
  unfold selectPeer
  dsimp only
  split
  next hnone =>
    refine ⟨none, self, rfl, fun _ => ?_, nofun⟩
    rw [List.isEmpty_iff] at hnone
    exact (self.candidates_spec site).2 hnone
  next hsome =>
    have hpos : 0 < (self.candidates site).length := List.length_pos_iff.2 (by simpa using hsome)
    obtain ⟨weights, hweights⟩ := returns_mapM.2 fun o (_ : o ∈ self.candidates site) =>
      self.returns_effectiveWeight world.now site.siteId o site.loadBalancer.adaptiveWeight
    have hlength : ((self.candidates site).zip weights).length = (self.candidates site).length := by
      rw [List.length_zip, ← (mapM_eq_ok_iff.1 hweights).length_eq, Nat.min_self]
    obtain ⟨i, balancer, hi, hchoose⟩ := self.choose_release world site (hlength.symm ▸ hpos)
    rw [hlength] at hi
    refine ⟨some (self.candidates site)[i], balancer, ?_, nofun, fun o ho => ?_⟩
    · rw [hweights, ok_bind, hchoose, ok_bind, index_ok hi]
      rfl
    · exact (self.candidates_spec site).1 o (Option.some.inj ho ▸ List.getElem_mem hi)

end DynamicBalancer

end Nozdormu.Balancer
