import Nozdormu.Balancer.Probes

/-!
# Which probes run

Every five seconds the service of `cdn-proxy/src/health_probe.rs` compares the probes that run with
those that the configuration asks for, by their keys. `Exact` says what should be the case after
each pass; `exact_iff` says along which configurations it is: those that never change the settings
of an origin while its task is alive.
-/

namespace Nozdormu.Balancer

open Rust Data Function List

/-- The settings that apply where a site has none. -/
structure ProbeDefaults where
  globalInterval : UInt64
  globalTimeout : UInt64
  globalHealthyThreshold : UInt32
  globalUnhealthyThreshold : UInt32

/-- The sites under their ids, in the order in which the map gives them. -/
abbrev LiveSites := List (Str × SiteConfig)

def ProbeTarget.key (target : ProbeTarget) : Str := makeKey target.siteId target.originId

namespace ProbeDefaults

variable (self : ProbeDefaults)

def targetOf (siteId : Str) (hc : HealthCheckSiteConfig) (origin : OriginConfig) : ProbeTarget where
  siteId
  originId := origin.id
  host := origin.host
  port := origin.port
  protocol := origin.protocol
  sni := origin.sni
  verifySsl := origin.verifySsl
  checkType := hc.type
  path := hc.path
  interval := if 0 < hc.interval then hc.interval else self.globalInterval
  timeout := if 0 < hc.timeout then hc.timeout else self.globalTimeout
  healthyThreshold := if 0 < hc.healthyThreshold then hc.healthyThreshold
    else self.globalHealthyThreshold
  unhealthyThreshold :=
    if 0 < hc.unhealthyThreshold then hc.unhealthyThreshold else self.globalUnhealthyThreshold
  expectedCodes := hc.expectedCodes
  hostHeader := hc.hostHeader

variable (sites : LiveSites)

/-- The map from keys to targets; a later target takes the place of an earlier one. -/
def computeDesiredProbes : Str → Option ProbeTarget :=
  sites.foldl (fun targets entry =>
    let hc := entry.2.loadBalancer.healthCheck
    if !entry.2.enabled then targets
    else if !hc.enabled then targets
    else entry.2.origins.foldl (fun targets origin =>
      if !origin.enabled then targets
      else
        let target := self.targetOf entry.1 hc origin
        update targets target.key (some target)) targets) fun _ => none

/-- The targets that the sites ask for, one for each enabled origin of a site that is to be probed.
-/
def wanted : List ProbeTarget :=
  (sites.filter fun entry => entry.2.enabled && entry.2.loadBalancer.healthCheck.enabled).flatMap
    fun entry => (entry.2.origins.filter (·.enabled)).map
      (self.targetOf entry.1 entry.2.loadBalancer.healthCheck)

/-- What the tasks are left with after a pass: those that are not wanted any more are aborted, those
that ended are replaced, and the missing ones are spawned. -/
def reconcile (ended : Str → Bool) (running : Str → Option ProbeTarget) :
    Str → Option ProbeTarget :=
  let desired := self.computeDesiredProbes sites
  let retained key := if (desired key).isSome ∧ ended key = false then running key else none
  fun key => (retained key).or (desired key)

end ProbeDefaults

/-- What a pass finds: the live configuration, and the tasks that have ended. -/
structure Pass where
  sites : LiveSites
  ended : Str → Bool

/-- The target of each task that runs, after a pass over `sites`. -/
structure ProbeService where
  sites : LiveSites
  running : Str → Option ProbeTarget

/-- What the probe of an origin should be up to date with. -/
def ProbeTarget.settings (target : ProbeTarget) :
    (Str × Str) × (Str × UInt16 × OriginProtocol) × (HealthCheckType × Str × UInt64 × UInt64) ×
      (UInt32 × UInt32 × Option (List UInt16)) :=
  ((target.siteId, target.originId), (target.host, target.port, target.protocol),
    (target.checkType, target.path, target.interval, target.timeout),
    (target.healthyThreshold, target.unhealthyThreshold, target.expectedCodes))

namespace ProbeService

variable (defaults : ProbeDefaults)

def start : ProbeService := ⟨[], fun _ => none⟩

def step (s : ProbeService) (pass : Pass) : ProbeService :=
  ⟨pass.sites, defaults.reconcile pass.sites pass.ended s.running⟩

def run (passes : List Pass) (s : ProbeService) : ProbeService := passes.foldl (step defaults) s

/-- There is exactly one probe for each target that is wanted, and it has its settings. -/
structure Exact (s : ProbeService) : Prop where
  distinct : ((defaults.wanted s.sites).map (·.key)).Nodup
  probed : ∀ w ∈ defaults.wanted s.sites, ∃ t, s.running w.key = some t ∧ t.settings = w.settings
  only : ∀ key t, s.running key = some t → ∃ w ∈ defaults.wanted s.sites, w.key = key

/-- No two origins share a key, and the settings of an origin are those of the last pass, unless it
is new or its task has ended. -/
def Steady (s : ProbeService) (pass : Pass) : Prop :=
  ((defaults.wanted pass.sites).map (·.key)).Nodup ∧
    ∀ w ∈ defaults.wanted pass.sites, ∀ w' ∈ defaults.wanted s.sites, w'.key = w.key →
      pass.ended w.key = false → w'.settings = w.settings

end ProbeService

variable {targets : List ProbeTarget} {w t : ProbeTarget} {key : Str}

namespace ProbeDefaults

variable {self : ProbeDefaults}

def insertAll (targets : List ProbeTarget) (map : Str → Option ProbeTarget) :
    Str → Option ProbeTarget :=
  targets.foldl (fun map target => update map target.key (some target)) map

theorem computeDesiredProbes_eq (sites : LiveSites) :
    self.computeDesiredProbes sites = insertAll (self.wanted sites) fun _ => none := by
  unfold computeDesiredProbes
  generalize (fun _ => none : Str → Option ProbeTarget) = map
  induction sites generalizing map with
  | nil => rfl
  | cons entry sites ih =>
    rw [foldl_cons, ih]
    cases hsite : entry.2.enabled <;> cases hhc : entry.2.loadBalancer.healthCheck.enabled <;>
      simp [wanted, insertAll, foldl_map, foldl_filter, hsite, hhc]
    simp only [← Bool.not_eq_true, ite_not]

theorem insertAll_eq_find? (targets : List ProbeTarget) (key : Str) :
    insertAll targets (fun _ => none) key = targets.reverse.find? (·.key = key) := by
  induction targets using List.reverseRecOn with
  | nil => rfl
  | append_singleton targets w ih =>
    rw [insertAll, foldl_append, reverse_append, reverse_singleton, singleton_append,
      List.find?_cons]
    show update (insertAll targets fun _ => none) w.key (some w) key = _
    by_cases hkey : key = w.key
    · simp [hkey]
    · rw [update_of_ne hkey, ih]
      simp [Ne.symm hkey]

theorem insertAll_some (h : insertAll targets (fun _ => none) key = some t) :
    t ∈ targets ∧ t.key = key := by
  rw [insertAll_eq_find?] at h
  exact ⟨mem_reverse.1 (mem_of_find?_eq_some h), by simpa using List.find?_some h⟩

theorem desired_of_mem {sites : LiveSites} (hw : w ∈ self.wanted sites) :
    (self.computeDesiredProbes sites w.key).isSome = true := by
  rw [computeDesiredProbes_eq, insertAll_eq_find?, List.find?_isSome]
  exact ⟨w, mem_reverse.2 hw, decide_eq_true rfl⟩

variable {sites : LiveSites} {ended : Str → Bool} {running : Str → Option ProbeTarget}

theorem of_reconcile (h : self.reconcile sites ended running key = some t) :
    (∃ w ∈ self.wanted sites, w.key = key) ∧
      (running key = some t ∧ ended key = false ∨ self.computeDesiredProbes sites key = some t) :=
        by
  unfold reconcile at h
  dsimp only at h
  cases hdesired : self.computeDesiredProbes sites key with
  | none =>
    rw [hdesired, if_neg (by simp)] at h
    cases h
  | some d =>
    rw [computeDesiredProbes_eq] at hdesired
    obtain ⟨hmem, hkey⟩ := insertAll_some hdesired
    refine ⟨⟨d, hmem, hkey⟩, ?_⟩
    rw [← computeDesiredProbes_eq] at hdesired
    rw [hdesired] at h
    cases hended : ended key with
    | true =>
      rw [hended, if_neg (by simp)] at h
      exact .inr h
    | false =>
      rw [hended, if_pos ⟨rfl, rfl⟩] at h
      cases hrunning : running key with
      | none =>
        rw [hrunning] at h
        exact .inr h
      | some r =>
        rw [hrunning] at h
        exact .inl ⟨h, rfl⟩

theorem reconcile_isSome (hw : w ∈ self.wanted sites) :
    ∃ t, self.reconcile sites ended running w.key = some t := by
  obtain ⟨d, hd⟩ := Option.isSome_iff_exists.1 (desired_of_mem hw)
  unfold reconcile
  dsimp only
  rw [hd]
  cases if (some d).isSome = true ∧ ended w.key = false then running w.key else none with
  | none => exact ⟨d, rfl⟩
  | some t => exact ⟨t, rfl⟩

end ProbeDefaults

/-! ## One pass after the other -/

namespace ProbeService

variable {defaults : ProbeDefaults} {s : ProbeService}

theorem exact_step_iff (h : s.Exact defaults) (pass : Pass) :
    (s.step defaults pass).Exact defaults ↔ s.Steady defaults pass := by
  constructor
  · intro hexact
    refine ⟨hexact.distinct, fun w hw w' hw' hkey halive => ?_⟩
    obtain ⟨t, ht, hold⟩ := h.probed w' hw'
    obtain ⟨t', ht', hnew⟩ := hexact.probed w hw
    rw [hkey] at ht
    -- the task of the last pass is wanted and has not ended, so it goes on
    have hsame : t = t' := by
      dsimp only [step, ProbeDefaults.reconcile] at ht'
      rw [if_pos ⟨ProbeDefaults.desired_of_mem hw, halive⟩, ht] at ht'
      exact Option.some.inj ht'
    rw [← hold, hsame, hnew]
  · rintro ⟨hdistinct, hunedited⟩
    refine ⟨hdistinct, fun w hw => ?_, fun key t ht => (ProbeDefaults.of_reconcile ht).1⟩
    obtain ⟨t, ht⟩ := ProbeDefaults.reconcile_isSome hw
    refine ⟨t, ht, ?_⟩
    rcases (ProbeDefaults.of_reconcile ht).2 with ⟨hrunning, halive⟩ | hspawned
    · obtain ⟨w', hw', hkey⟩ := h.only w.key t hrunning
      obtain ⟨t', ht', hold⟩ := h.probed w' hw'
      rw [hkey, hrunning] at ht'
      cases ht'
      exact hold.trans (hunedited w hw w' hw' hkey halive)
    · rw [ProbeDefaults.computeDesiredProbes_eq] at hspawned
      obtain ⟨hmem, hkey⟩ := ProbeDefaults.insertAll_some hspawned
      rw [inj_on_of_nodup_map hdistinct hmem hw hkey]

/-- The probes are exact after every pass, if and only if every pass finds distinct keys and no
origin edited in place while its task is alive. -/
theorem exact_iff (defaults : ProbeDefaults) (passes : List Pass) :
    (∀ pre, pre <+: passes → (run defaults pre start).Exact defaults) ↔
      ∀ pre pass, pre ++ [pass] <+: passes → (run defaults pre start).Steady defaults pass :=
  forall_prefix_iff (P := Exact defaults) (I := fun _ => True)
    (fun _ pass _ h => exact_step_iff h pass)
    (fun _ _ _ _ _ => trivial) passes trivial
    ⟨nodup_nil, fun _ hw => absurd hw not_mem_nil, nofun⟩

/-- A site with one origin, first at the port 80 and then at 8080. -/
def movedSite (port : UInt16) : LiveSites :=
  [("s", { siteId := "s", origins := [{ id := "a", host := "a.test", port }] })]

/-- The configuration changes between two passes, and nothing ends. -/
def editedInPlace : List Pass := [⟨movedSite 80, fun _ => false⟩, ⟨movedSite 8080, fun _ => false⟩]

/-- The probe still asks the old port. -/
theorem exact_fails : let s := run ⟨10, 5, 2, 3⟩ editedInPlace start
    (s.running (makeKey "s" "a")).map (·.port) = some 80 ∧ ¬ s.Exact ⟨10, 5, 2, 3⟩ := by
  have hport : ((run ⟨10, 5, 2, 3⟩ editedInPlace start).running
      (makeKey "s" "a")).map (·.port) = some 80 := by decide +kernel
  refine ⟨hport, fun hexact => ?_⟩
  obtain ⟨t, ht, hsettings⟩ := hexact.probed
    (ProbeDefaults.targetOf ⟨10, 5, 2, 3⟩ "s" {}
      { id := "a", host := "a.test", port := 8080 }) (by decide +kernel)
  rw [show ProbeTarget.key _ = makeKey "s" "a" from rfl] at ht
  rw [ht] at hport
  have hnew : t.port = 8080 := congrArg (fun settings => settings.2.1.2.1) hsettings
  rw [Option.map_some, hnew] at hport
  revert hport
  decide

end ProbeService

end Nozdormu.Balancer
