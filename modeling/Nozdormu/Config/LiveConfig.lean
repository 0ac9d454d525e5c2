import Mathlib.Data.List.AList
import Mathlib.Data.List.Induction
import Mathlib.Data.List.Perm.Basic
import Nozdormu.Rust.Str

/-!
# The live configuration

`cdn-config/src/live_config.rs`: the sites under their ids, and two indexes from domains to ids that
are built from them. A `HashMap` is walked in an order of its own, so where several sites claim a
domain it is open which of them gets it: the one that comes last (`buildIndexes_apply`).
-/

namespace Nozdormu.Config

open Rust List

/-- A site, as far as loading and routing look into it; `ρ` is all the rest of it. -/
structure SiteConfig (ρ : Type) where
  enabled : Bool
  domains : List Str
  targetLabels : List Str
  rest : ρ
deriving DecidableEq

abbrev Sites (ρ : Type) := AList fun _ : Str => SiteConfig ρ

/-- One entry of the map. -/
abbrev Entry (ρ : Type) := Sigma fun _ : Str => SiteConfig ρ

structure LiveConfig (ρ : Type) where
  sites : Sites ρ
  domainIndex : Str → Option Str
  wildcardIndex : Str → Option Str

structure WalkOrder (ρ : Type) where
  walk : List (Entry ρ) → List (Entry ρ)
  perm : ∀ l, (walk l).Perm l

variable {ρ : Type}

def isWildcard (domain : Str) : Bool := "*.".toList.isPrefixOf domain

def insertDomain (lower : Str → Str) (siteId : Str)
    (indexes : (Str → Option Str) × (Str → Option Str))
    (domain : Str) : (Str → Option Str) × (Str → Option Str) :=
  if isWildcard (lower domain) then
    (indexes.1, Function.update indexes.2 (lower domain) (some siteId))
  else (Function.update indexes.1 (lower domain) (some siteId), indexes.2)

/-- `build_indexes`, for the entries in the order of the walk; `lower` is `to_lowercase`. -/
def buildIndexes (lower : Str → Str) (entries : List (Entry ρ)) :
    (Str → Option Str) × (Str → Option Str) :=
  entries.foldl (fun indexes entry =>
    if !entry.2.enabled then indexes
    else entry.2.domains.foldl (insertDomain lower entry.1) indexes)
    (fun _ => none, fun _ => none)

def config (lower : Str → Str) (order : WalkOrder ρ) (sites : Sites ρ) : LiveConfig ρ :=
  let indexes := buildIndexes lower (order.walk sites.entries)
  ⟨sites, indexes.1, indexes.2⟩

def SiteConfig.claims (lower : Str → Str) (domain : Str) (site : SiteConfig ρ) : Bool :=
  site.enabled && (site.domains.map lower).contains domain

def lastClaim (lower : Str → Str) (entries : List (Entry ρ)) (domain : Str) : Option Str :=
  ((entries.filter fun entry => entry.2.claims lower domain).getLast?).map (·.1)

variable {lower : Str → Str} {entries : List (Entry ρ)} {entry : Entry ρ} {domain : Str}

/-! ## What the indexes hold -/

theorem insertDomains_apply (siteId : Str) (domains : List Str)
    (indexes : (Str → Option Str) × (Str → Option Str)) :
    let result := domains.foldl (insertDomain lower siteId) indexes
    result.1 domain = (if isWildcard domain = false ∧ domain ∈ domains.map lower then some siteId
        else indexes.1 domain) ∧
      result.2 domain = (if isWildcard domain = true ∧ domain ∈ domains.map lower then some siteId
        else indexes.2 domain) := by
  induction domains generalizing indexes with
  | nil => simp
  | cons first domains ih =>
    dsimp only
    rw [foldl_cons, (ih _).1, (ih _).2]
    unfold insertDomain
    by_cases hsame : domain = lower first
    · obtain rfl := hsame
      cases hwild : isWildcard (lower first) <;> simp
    · cases hwild : isWildcard (lower first) <;> simp [hsame]

theorem buildIndexes_apply (entries : List (Entry ρ)) (domain : Str) :
    (buildIndexes lower entries).1 domain =
        (if isWildcard domain then none else lastClaim lower entries domain) ∧
      (buildIndexes lower entries).2 domain =
        (if isWildcard domain then lastClaim lower entries domain else none) := by
  induction entries using List.reverseRecOn with
  | nil => cases isWildcard domain <;> exact ⟨rfl, rfl⟩
  | append_singleton entries entry ih =>
    have hconcat : buildIndexes lower (entries ++ [entry]) =
        if !entry.2.enabled then buildIndexes lower entries
        else entry.2.domains.foldl (insertDomain lower entry.1) (buildIndexes lower entries) := by
      unfold buildIndexes
      rw [foldl_append]
      rfl
    have hlast : lastClaim lower (entries ++ [entry]) domain =
        if entry.2.claims lower domain then some entry.1 else lastClaim lower entries domain := by
      unfold lastClaim
      cases hclaims : entry.2.claims lower domain <;> simp [hclaims]
    rw [hconcat, hlast, SiteConfig.claims]
    cases henabled : entry.2.enabled with
    | false => simpa using ih
    | true =>
      simp only [Bool.not_true, Bool.false_eq_true, if_false, Bool.true_and, contains_iff_mem]
      rw [(insertDomains_apply ..).1, (insertDomains_apply ..).2, ih.1, ih.2]
      cases hwild : isWildcard domain <;> simp

variable {siteId : Str}

theorem lastClaim_some (h : lastClaim lower entries domain = some siteId) :
    ∃ site, ⟨siteId, site⟩ ∈ entries ∧ site.claims lower domain = true := by
  obtain ⟨entry, hlast, rfl⟩ := Option.map_eq_some_iff.1 h
  exact ⟨entry.2, mem_filter.1 (mem_of_getLast? hlast)⟩

variable {site : SiteConfig ρ}

theorem exists_lastClaim (hmem : ⟨siteId, site⟩ ∈ entries)
    (hclaims : site.claims lower domain = true) :
      ∃ id, lastClaim lower entries domain = some id := by
  have hne : entries.filter (fun entry => entry.2.claims lower domain) ≠ [] :=
    ne_nil_of_mem (mem_filter.2 ⟨hmem, hclaims⟩)
  exact ⟨_, by rw [lastClaim, List.getLast?_eq_some_getLast hne]; rfl⟩

/-- No domain is claimed by two of the sites. -/
def Undisputed (lower : Str → Str) (sites : Str → Option (SiteConfig ρ)) : Prop :=
  ∀ domain id id' site site', sites id = some site → sites id' = some site' →
    site.claims lower domain = true → site'.claims lower domain = true → id = id'

variable {sites sites' : Sites ρ}

theorem mem_walk_iff (order : WalkOrder ρ) :
    ⟨siteId, site⟩ ∈ order.walk sites.entries ↔ sites.lookup siteId = some site := by
  rw [(order.perm _).mem_iff]
  exact AList.mem_lookup_iff.symm

theorem lastClaim_congr (hsites : ∀ id, sites.lookup id = sites'.lookup id)
    (hundisputed : Undisputed lower fun id => sites.lookup id) (order order' : WalkOrder ρ)
    (domain : Str) :
    lastClaim lower (order.walk sites.entries) domain =
      lastClaim lower (order'.walk sites'.entries) domain := by
  cases h : lastClaim lower (order.walk sites.entries) domain with
  | none =>
    cases h' : lastClaim lower (order'.walk sites'.entries) domain with
    | none => rfl
    | some id' =>
      obtain ⟨site', hmem', hclaims'⟩ := lastClaim_some h'
      rw [mem_walk_iff, ← hsites, ← mem_walk_iff order] at hmem'
      obtain ⟨id, hid⟩ := exists_lastClaim hmem' hclaims'
      rw [h] at hid
      cases hid
  | some id =>
    obtain ⟨site, hmem, hclaims⟩ := lastClaim_some h
    rw [mem_walk_iff] at hmem
    obtain ⟨id', hid'⟩ := exists_lastClaim
      ((mem_walk_iff order').2 ((hsites id).symm.trans hmem)) hclaims
    obtain ⟨site', hmem', hclaims'⟩ := lastClaim_some hid'
    rw [mem_walk_iff, ← hsites] at hmem'
    rw [hid', hundisputed domain id id' site site' hmem hmem' hclaims hclaims']

def WalkOrder.last (siteId : Str) : WalkOrder ρ where
  walk l := l.filter (fun entry => decide (entry.1 ≠ siteId)) ++
    l.filter fun entry => !decide (entry.1 ≠ siteId)
  perm _ := filter_append_perm ..

theorem lastClaim_last (hsite : sites.lookup siteId = some site)
    (hclaims : site.claims lower domain = true) :
    lastClaim lower ((WalkOrder.last siteId).walk sites.entries) domain = some siteId := by
  have hmem : ⟨siteId, site⟩ ∈ (sites.entries.filter fun entry => !decide (entry.1 ≠ siteId)).filter
      fun entry => entry.2.claims lower domain :=
    mem_filter.2 ⟨mem_filter.2 ⟨AList.mem_lookup_iff.1 hsite, by simp⟩, hclaims⟩
  have hne := ne_nil_of_mem hmem
  have hlast := (mem_filter.1 (mem_filter.1 (getLast_mem hne)).1).2
  rw [Bool.not_eq_true', decide_eq_false_iff_not, not_not] at hlast
  unfold lastClaim WalkOrder.last
  rw [filter_append, List.getLast?_append_of_ne_nil _ hne, List.getLast?_eq_some_getLast hne,
    Option.map_some, hlast]

structure SameConfig (a b : LiveConfig ρ) : Prop where
  sites : ∀ id, a.sites.lookup id = b.sites.lookup id
  domainIndex : a.domainIndex = b.domainIndex
  wildcardIndex : a.wildcardIndex = b.wildcardIndex

theorem sameConfig_iff {a b : LiveConfig ρ} {order order' : WalkOrder ρ}
    (ha : a = config lower order a.sites) (hb : b = config lower order' b.sites) :
    SameConfig a b ↔ (∀ id, a.sites.lookup id = b.sites.lookup id) ∧
      ∀ domain, lastClaim lower (order.walk a.sites.entries) domain =
        lastClaim lower (order'.walk b.sites.entries) domain := by
  have hindexes : ∀ domain, (a.domainIndex domain = b.domainIndex domain ∧
      a.wildcardIndex domain = b.wildcardIndex domain) ↔
        lastClaim lower (order.walk a.sites.entries) domain =
          lastClaim lower (order'.walk b.sites.entries) domain := by
    intro domain
    rw [ha, hb]
    simp only [config, (buildIndexes_apply ..).1, (buildIndexes_apply ..).2]
    cases hwild : isWildcard domain <;> simp
  constructor
  · intro h
    exact ⟨h.sites, fun domain =>
      (hindexes domain).1 ⟨congrFun h.domainIndex domain, congrFun h.wildcardIndex domain⟩⟩
  · rintro ⟨hsites, hclaims⟩
    exact ⟨hsites, funext fun domain => ((hindexes domain).2 (hclaims domain)).1,
      funext fun domain => ((hindexes domain).2 (hclaims domain)).2⟩

end Nozdormu.Config
