import Nozdormu.Config.LiveConfig

/-!
# From a host to a site

`match_site` of `cdn-config/src/live_config.rs`. The host loses its port and its brackets; then the
index of domains is asked for it, and the index of wildcards for the host with its first label
replaced by `*`.
-/

namespace Nozdormu.Config

open Rust

variable {ρ : Type}

/-- `normalize_host`; `lower` is `to_lowercase`. -/
def normalizeHost (lower : Str → Str) (host : Str) : Str :=
  lower <|
    match stripStart "[" host with
    | some inner => inner.takeWhile (· ≠ ']')
    | none =>
      match rsplitOnce ':' host with
      | some (before, port) => if !port.isEmpty && port.all Char.isDigit then before else host
      | none => host

/-- The site that an index names for a domain; it has to be enabled. -/
def LiveConfig.siteAt (live : LiveConfig ρ) (index : Str → Option Str) (domain : Str) :
    Option (SiteConfig ρ) :=
  ((index domain).bind fun siteId => live.sites.lookup siteId).filter (·.enabled)

def wildcardOf (host : Str) : Option Str :=
  (splitOnce "." host).map fun r => "*." ++ r.2

def LiveConfig.matchSite (lower : Str → Str) (live : LiveConfig ρ) (host : Str) :
    Option (SiteConfig ρ) :=
  let host := normalizeHost lower host
  (live.siteAt live.domainIndex host).or
    ((wildcardOf host).bind fun wildcardKey => live.siteAt live.wildcardIndex wildcardKey)

theorem wildcardOf_of_isWildcard {host : Str} (h : isWildcard host = true) :
    wildcardOf host = some host := by
  obtain ⟨parent, rfl⟩ := List.isPrefixOf_iff_prefix.1 h
  have hsplit : splitOnce "." ("*." ++ parent) = some (['*'], parent) :=
    splitOnce_append (by decide : '.' ∉ ['*']) parent
  rw [wildcardOf, hsplit, Option.map_some]

def IsClaimant (lower : Str → Str) (sites : Sites ρ) (domain : Str) (site : SiteConfig ρ) : Prop :=
  ∃ id, sites.lookup id = some site ∧ site.claims lower domain = true

/-- A site that lists the host or, where none does, its wildcard. -/
def Entitled (lower : Str → Str) (sites : Sites ρ) (host : Str) (site : SiteConfig ρ) : Prop :=
  IsClaimant lower sites host site ∨
    (∀ other, ¬ IsClaimant lower sites host other) ∧
      ∃ domain, wildcardOf host = some domain ∧ IsClaimant lower sites domain site

/-- At most one site is entitled to the host. -/
def Unambiguous (lower : Str → Str) (sites : Sites ρ) (host : Str) : Prop :=
  ∀ site site', Entitled lower sites host site → Entitled lower sites host site' → site = site'

variable {lower : Str → Str} {sites : Sites ρ} {host domain : Str} {site : SiteConfig ρ}

def claimant (lower : Str → Str) (order : WalkOrder ρ) (sites : Sites ρ) (domain : Str) :
    Option (SiteConfig ρ) :=
  (lastClaim lower (order.walk sites.entries) domain).bind fun siteId => sites.lookup siteId

theorem lookup_of_lastClaim {order : WalkOrder ρ} {siteId : Str}
    (h : lastClaim lower (order.walk sites.entries) domain = some siteId) :
    ∃ site, sites.lookup siteId = some site ∧ site.claims lower domain = true := by
  obtain ⟨site, hmem, hclaims⟩ := lastClaim_some h
  exact ⟨site, (mem_walk_iff order).1 hmem, hclaims⟩

theorem isClaimant_of_claimant {order : WalkOrder ρ}
    (h : claimant lower order sites domain = some site) :
    IsClaimant lower sites domain site := by
  obtain ⟨siteId, hlast, hlookup⟩ := Option.bind_eq_some_iff.1 h
  obtain ⟨site', hlookup', hclaims⟩ := lookup_of_lastClaim hlast
  obtain rfl := Option.mem_unique hlookup hlookup'
  exact ⟨siteId, hlookup, hclaims⟩

theorem not_isClaimant_of_claimant {order : WalkOrder ρ}
    (h : claimant lower order sites domain = none)
    (site : SiteConfig ρ) : ¬ IsClaimant lower sites domain site := by
  rintro ⟨id, hlookup, hclaims⟩
  obtain ⟨siteId, hlast⟩ := exists_lastClaim ((mem_walk_iff order).2 hlookup) hclaims
  obtain ⟨site', hlookup', -⟩ := lookup_of_lastClaim hlast
  rw [claimant, hlast, Option.bind_some, hlookup'] at h
  cases h

theorem exists_claimant (h : IsClaimant lower sites domain site) :
    ∃ order, claimant lower order sites domain = some site := by
  obtain ⟨id, hlookup, hclaims⟩ := h
  refine ⟨.last id, ?_⟩
  rw [claimant, lastClaim_last hlookup hclaims, Option.bind_some, hlookup]

variable (order : WalkOrder ρ)

theorem domainIndex_config (domain : Str) : (config lower order sites).domainIndex domain =
      if isWildcard domain then none else lastClaim lower (order.walk sites.entries) domain :=
  (buildIndexes_apply ..).1

theorem siteAt_eq_claimant {index : Str → Option Str}
    (hindex : index domain = lastClaim lower (order.walk sites.entries) domain) :
    (config lower order sites).siteAt index domain = claimant lower order sites domain := by
  unfold LiveConfig.siteAt
  rw [hindex]
  show Option.filter _ (claimant lower order sites domain) = _
  cases hclaimant : claimant lower order sites domain with
  | none => rfl
  | some site =>
    obtain ⟨id, -, hclaims⟩ := isClaimant_of_claimant hclaimant
    rw [SiteConfig.claims, Bool.and_eq_true] at hclaims
    rw [Option.filter_some, if_pos hclaims.1]

theorem matchSite_config (host : Str) : (config lower order sites).matchSite lower host =
      (claimant lower order sites (normalizeHost lower host)).or
        ((wildcardOf (normalizeHost lower host)).bind (claimant lower order sites)) := by
  unfold LiveConfig.matchSite
  dsimp only
  generalize normalizeHost lower host = host
  have hwildcards : ((wildcardOf host).bind fun wildcardKey => (config lower order sites).siteAt
      (config lower order sites).wildcardIndex wildcardKey) =
        (wildcardOf host).bind (claimant lower order sites) := by
    cases hwildcard : wildcardOf host with
    | none => rfl
    | some domain =>
      obtain ⟨r, -, rfl⟩ := Option.map_eq_some_iff.1 hwildcard
      exact siteAt_eq_claimant order ((buildIndexes_apply ..).2.trans
        (if_pos (List.isPrefixOf_iff_prefix.2 (List.prefix_append ..))))
  rw [hwildcards]
  cases hwild : isWildcard host with
  | false =>
    rw [siteAt_eq_claimant order]
    rw [domainIndex_config, hwild]
    rfl
  | true =>
    -- such a host is not in the index of domains, but it is its own wildcard
    have hnone : (config lower order sites).siteAt (config lower order sites).domainIndex
        host = none := by
      unfold LiveConfig.siteAt
      rw [domainIndex_config, hwild]
      rfl
    rw [hnone, wildcardOf_of_isWildcard hwild, Option.none_or, Option.bind_some, Option.or_self]

theorem entitled_of_answer {order : WalkOrder ρ} (h : (claimant lower order sites host).or
      ((wildcardOf host).bind (claimant lower order sites)) =
      some site) : Entitled lower sites host site := by
  cases hexact : claimant lower order sites host with
  | some site' =>
    rw [hexact, Option.some_or] at h
    exact .inl (isClaimant_of_claimant (hexact.trans h))
  | none =>
    rw [hexact, Option.none_or] at h
    obtain ⟨domain, hwildcard, hclaimant⟩ := Option.bind_eq_some_iff.1 h
    exact .inr ⟨not_isClaimant_of_claimant hexact, domain, hwildcard,
      isClaimant_of_claimant hclaimant⟩

theorem answer_of_entitled (h : Entitled lower sites host site) :
    ∃ site', (claimant lower order sites host).or
    ((wildcardOf host).bind (claimant lower order sites)) =
      some site' := by
  cases hexact : claimant lower order sites host with
  | some site' => exact ⟨site', rfl⟩
  | none =>
    rcases h with hclaims | ⟨-, domain, hwildcard, hclaims⟩
    · exact absurd hclaims (not_isClaimant_of_claimant hexact site)
    · rw [hwildcard, Option.bind_some]
      cases hclaimant : claimant lower order sites domain with
      | some site' => exact ⟨site', rfl⟩
      | none => exact absurd hclaims (not_isClaimant_of_claimant hclaimant site)

theorem exists_answer (h : Entitled lower sites host site) :
    ∃ order, (claimant lower order sites host).or
      ((wildcardOf host).bind (claimant lower order sites)) = some site := by
  rcases h with hclaims | ⟨hnone, domain, hwildcard, hclaims⟩
  · obtain ⟨order, horder⟩ := exists_claimant hclaims
    exact ⟨order, by rw [horder, Option.some_or]⟩
  obtain ⟨order, horder⟩ := exists_claimant hclaims
  refine ⟨order, ?_⟩
  have hexact : claimant lower order sites host = none := by
    rw [Option.eq_none_iff_forall_ne_some]
    exact fun other hother => hnone other (isClaimant_of_claimant hother)
  rw [hexact, Option.none_or, hwildcard, Option.bind_some, horder]

theorem unambiguous_of_undisputed (h : Undisputed lower fun id => sites.lookup id) :
    Unambiguous lower sites host := by
  have hone : ∀ domain site site', IsClaimant lower sites domain site →
      IsClaimant lower sites domain site' → site = site' := by
    rintro domain site site' ⟨id, hlookup, hclaims⟩ ⟨id', hlookup', hclaims'⟩
    obtain rfl := h domain id id' site site' hlookup hlookup' hclaims hclaims'
    exact Option.mem_unique hlookup hlookup'
  rintro site site' (hclaims | ⟨hnone, domain, hwildcard, hclaims⟩)
    (hclaims' | ⟨hnone', domain', hwildcard', hclaims'⟩)
  · exact hone host site site' hclaims hclaims'
  · exact absurd hclaims (hnone' site)
  · exact absurd hclaims' (hnone site')
  · obtain rfl := Option.mem_unique hwildcard hwildcard'
    exact hone domain site site' hclaims hclaims'

/-- The order of the walk does not matter for a host exactly if no two sites are entitled to it; the
answer is then the site that is entitled, if there is one. -/
theorem matchSite_iff (lower : Str → Str) (sites : Sites ρ) (host : Str) :
    ((∀ order order', (config lower order sites).matchSite lower host =
        (config lower order' sites).matchSite lower host) ↔
      Unambiguous lower sites (normalizeHost lower host)) ∧
    (Unambiguous lower sites (normalizeHost lower host) → ∀ order site,
      (config lower order sites).matchSite lower host = some site ↔
        Entitled lower sites (normalizeHost lower host) site) ∧
    ((Undisputed lower fun id => sites.lookup id) →
      Unambiguous lower sites (normalizeHost lower host)) := by
  simp only [matchSite_config]
  generalize normalizeHost lower host = host
  have hanswer : Unambiguous lower sites host → ∀ order site,
      (claimant lower order sites host).or ((wildcardOf host).bind (claimant lower order sites)) =
        some site ↔ Entitled lower sites host site := by
    intro hone order site
    refine ⟨entitled_of_answer, fun hentitled => ?_⟩
    obtain ⟨site', hsite'⟩ := answer_of_entitled order hentitled
    rw [hsite', hone site' site (entitled_of_answer hsite') hentitled]
  refine ⟨⟨fun hsame site site' hsite hsite' => ?_, fun hone order order' => ?_⟩, hanswer,
    unambiguous_of_undisputed⟩
  · obtain ⟨order, horder⟩ := exists_answer hsite
    obtain ⟨order', horder'⟩ := exists_answer hsite'
    exact Option.mem_unique horder ((hsame order order').trans horder')
  · exact Option.ext fun site => (hanswer hone order site).trans (hanswer hone order' site).symm

def rivals : Sites Bool :=
  (AList.singleton "a".toList ⟨true, ["x.test".toList], [], true⟩).insert "b".toList
    ⟨true, ["x.test".toList], [], false⟩

/-- The site that the walk comes to last gets the host. -/
theorem matchSite_fails :
    (config id (.last "a".toList) rivals).matchSite id "x.test:443".toList =
        some ⟨true, ["x.test".toList], [], true⟩ ∧
      (config id (.last "b".toList) rivals).matchSite id "x.test:443".toList =
        some ⟨true, ["x.test".toList], [], false⟩ := by
  decide +kernel

end Nozdormu.Config
