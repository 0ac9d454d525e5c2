import Nozdormu.Admin.Purge
import Nozdormu.Proxy.CacheWriters

/-!
# Purging a URL

The key of a URL is computed twice: by the proxy, with the settings of the site, and by the purge,
with the fields of the purge request, where a field that is left out has a default of its own. A
site that sorts query strings stores under the sorted query; a purge that says nothing about sorting
deletes under the query as it is (`purgeWorks_iff`).
-/

namespace Nozdormu.Admin

open Rust Bmff Cache Proxy Data List

def urlPurge (proxy : CdnProxy) : PurgeRequest :=
  .url proxy.site.siteId proxy.host proxy.path proxy.query

def purgeParts (proxy : CdnProxy) : KeyParts :=
  urlParts proxy.site.siteId proxy.host proxy.path proxy.query false []

def lookUp (p : Profile) (storage : CacheStorage) (proxy : CdnProxy) (request : Request)
    (b : Backends) :
    Except Fault (Option (CachedResponse × Bool)) :=
  ((onStores (storage.getWithStale p proxy.site.siteId (proxy.cacheKey request))).run
    Backends.serve b).1

/-- After every run of the cache, a purge of the URL that is answered 200 leaves nothing for a later
request to find, whatever fails on the way. -/
def PurgeWorks (p : Profile) (proxy : CdnProxy) : Prop :=
  ∀ (state : AdminState) (taskId : Str) (clock : Clock) (events : List CacheEvent) (paging : Paging)
    (outages : List Bool) (reply : PurgeReply) (tasks : List PurgeTaskStatus) (purged : Backends),
    state.md5 = proxy.md5 →
    (purgeCache p state taskId (urlPurge proxy)).run Backends.serve
        ⟨(CacheSystem.run p events (.empty clock)).stores, paging, outages, []⟩
      = (.ok (200, reply, tasks), purged) →
    ∀ (request : Request) (later : Backends), purged.stores.Fades later.stores →
      (∀ r, lookUp p state.storage proxy request later ≠ .ok (some r)) ∧
      (state.storage = .full → outages = [] → later.outages = [] →
        lookUp p state.storage proxy request later = .ok none)

/-- What a purge of a URL has to be to be carried out. -/
structure Accepted (sites : List Str) (siteId host path : Str) : Prop where
  site : validateSiteId siteId = .ok ()
  url : validatePurgeUrl host path = .ok ()
  known : sites.contains siteId = true

section Purge

variable {state : AdminState} {siteId host path : Str} {query : Option Str}
  {sort : Bool} {vary : List (Str × Str)}

open Task Backends

theorem accepted_of_run {reply : PurgeReply} {tasks : List PurgeTaskStatus} {b purged : Backends}
    (h : (purgeCacheUrl state siteId host path query sort vary).run serve b
      = (.ok (200, reply, tasks), purged)) : Accepted state.sites siteId host path := by
  unfold purgeCacheUrl at h
  cases hsite : validateSiteId siteId with
  | error e => rw [hsite] at h; cases (Prod.mk.inj h).1
  | ok _ =>
    cases hurl : validatePurgeUrl host path with
    | error e => rw [hsite, hurl] at h; cases (Prod.mk.inj h).1
    | ok _ =>
      rw [hsite, hurl] at h
      dsimp only at h
      split at h
      next => cases (Prod.mk.inj h).1
      next hknown => exact ⟨hsite, hurl, by simpa using hknown⟩

theorem ensures_purgeCacheUrl :
    Ensures serve (fun _ => True) (purgeCacheUrl state siteId host path query sort vary)
      fun answer b => answer.1 = 200 → ∃ place, (cacheObjectPath siteId
        (generateCacheKey state.md5 (urlParts siteId host path query sort vary)) :
          Exec Empty Str) = .ok place ∧
          Absent place b := by
  have hrefused : ∀ {status : Nat} {reply : PurgeReply} {Q : Backends → Prop}, status ≠ 200 →
      Ensures serve (fun _ => True) (pure (status, reply, state.tasks) : AdminTask Answered)
        fun answer b => answer.1 = 200 → Q b :=
    fun hne => ensures_done fun _ _ h => absurd h hne
  unfold purgeCacheUrl
  split
  · exact hrefused (by decide)
  · exact hrefused (by decide)
  split
  · exact hrefused (by decide)
  refine Ensures.bind (R := fun result b => ∀ key, result = .ok key → ∃ place,
    (cacheObjectPath siteId
    (generateCacheKey state.md5 (urlParts siteId host path query sort vary)) : Exec Empty Str) =
      .ok place ∧
      Absent place b) ?_ fun result => ?_
  · refine (ensures_onStores ensures_delete).bind fun result => ensures_done fun b hb key hkey => ?_
    cases result with
    | error e => cases hkey
    | ok _ => exact hb rfl
  · cases result with
    | error e => exact ensures_done fun _ _ h => absurd h (show 500 ≠ 200 by decide)
    | ok key => exact ensures_done fun b hb _ => hb key rfl

theorem run_purgeCacheUrl (state : AdminState) (siteId host path : Str)
    (query : Option Str) (sort : Bool)
    (vary : List (Str × Str)) (h : Accepted state.sites siteId host path)
    (hstorage : state.storage = .full) {key place : Str}
    (hkey : generateCacheKey state.md5 (urlParts siteId host path query sort vary) = key)
    (hplace : (cacheObjectPath siteId key : Exec Empty Str) = .ok place) (s : Stores)
    (paging : Paging) :
    ∃ s', (purgeCacheUrl state siteId host path query sort vary).run serve ⟨s, paging, [], []⟩
        = (.ok (200, .url siteId key 1, state.tasks), ⟨s', paging, [], []⟩) ∧
      s'.clock = s.clock ∧ s'.objects = s.objects.erase place ∧
      s'.redis.lookup (metaKey siteId key) = none ∧
      ∀ key', ¬ IsTagKey key' → key' ≠ metaKey siteId key → s'.redis.lookup key' =
        s.redis.lookup key' := by
  obtain ⟨s', hrun, hrest⟩ := run_delete hplace s
  obtain ⟨hclock, hobjects, hmeta, hother⟩ := hrest
  refine ⟨s', ?_, hclock, hobjects, hmeta, fun key' hkey' => hother key' fun tag _ heq => ?_⟩
  on_goal 2 => exact hkey' ⟨siteId, tag, heq.symm⟩
  have hdelete : (onStores (state.storage.delete siteId key)).run serve ⟨s, paging, [], []⟩
      = (.ok (.ok ()), ⟨s', paging, [], []⟩) := by
    rw [run_onStores, hstorage, hrun]
  unfold purgeCacheUrl
  rw [h.site, h.url]
  rw [if_neg (by rw [h.known]; decide)]
  have hpurge : (purgeUrl state (urlParts siteId host path query sort vary) siteId).run serve
      ⟨s, paging, [], []⟩ = (.ok (.ok key), ⟨s', paging, [], []⟩) := by
    unfold purgeUrl
    rw [hkey]
    exact run_bind_of_ok hdelete
  exact run_bind_of_ok hpurge

end Purge

/-! ## The keys -/

/-- The query of the URL does not change by sorting, or it is not sorted. -/
def QuerySettled (proxy : CdnProxy) : Prop :=
  proxy.site.cache.sortQueryString = true →
    sortQuery ((proxy.query.map strBytes).getD []) = (proxy.query.map strBytes).getD []

variable {proxy : CdnProxy}

theorem hashed_purgeParts_iff (hvary : proxy.site.cache.varyHeaders = []) (request : Request) :
    (purgeParts proxy).hashed = (proxy.requestParts request).hashed ↔ QuerySettled proxy := by
  have hnone : (proxy.requestParts request).varyPart = [] := by
    unfold KeyParts.varyPart CdnProxy.requestParts CdnProxy.varyValues
    rw [hvary]
    rfl
  have hpurge : (purgeParts proxy).queryPart = (proxy.query.map strBytes).getD [] :=
    (purgeParts proxy).queryPart_eq
  have hrequest := (proxy.requestParts request).queryPart_eq
  have hcancel : (purgeParts proxy).hashed = (proxy.requestParts request).hashed ↔
      (purgeParts proxy).queryPart = (proxy.requestParts request).queryPart := by
    unfold KeyParts.hashed
    rw [hnone]
    constructor
    · intro h
      have hhost := (List.cons.inj (append_cancel_left h)).2
      have hpath := (List.cons.inj (append_cancel_left hhost)).2
      exact append_cancel_right (List.cons.inj (append_cancel_left hpath)).2
    · intro h
      rw [h]
      rfl
  rw [hcancel, hpurge, hrequest]
  split
  next hsort => exact ⟨fun h _ => h.symm, fun h => (h hsort).symm⟩
  next hsort => exact ⟨fun _ h => absurd h hsort, fun _ => rfl⟩

variable (p : Profile)

theorem purgeWorks_of_querySettled
    (hvary : proxy.site.cache.varyHeaders = []) (h : QuerySettled proxy) : PurgeWorks p proxy := by
  intro state taskId clock events paging outages reply tasks purged hmd5 hrun request later hfades
  have hkey : generateCacheKey state.md5 (purgeParts proxy) = proxy.cacheKey request := by
    rw [CdnProxy.cacheKey, generateCacheKey, generateCacheKey, hmd5,
      (hashed_purgeParts_iff hvary request).2 h]
    rfl
  obtain ⟨place, hplace, habsent⟩ := ensures_purgeCacheUrl _ _ _ trivial hrun rfl
  have hplace' : (cacheObjectPath proxy.site.siteId (proxy.cacheKey request) : Exec Empty Str) =
      .ok place :=
    hkey ▸ hplace
  constructor
  · intro r hread
    have hnone := Backends.ensures_onStores (Backends.ensures_getWithStale p state.storage hplace')
      later (some r) _ (habsent.fades hfades) (Prod.ext hread rfl)
    cases hnone
  intro hstorage houtages hlater
  subst houtages
  obtain ⟨s', hrun', -, hobjects, hmeta, -⟩ := run_purgeCacheUrl state _ _ _ _ _ _
    (accepted_of_run hrun) hstorage hkey hplace'
      (CacheSystem.run p events (.empty clock)).stores paging
  obtain ⟨-, rfl⟩ := Prod.mk.inj (hrun.symm.trans hrun')
  obtain ⟨s, paging', outages, refused⟩ := later
  subst hlater
  have hgone : s.redis.lookup (metaKey proxy.site.siteId (proxy.cacheKey request)) = none := by
    cases hentry : s.redis.lookup (metaKey proxy.site.siteId (proxy.cacheKey request)) with
    | none => rfl
    | some e =>
      have hbefore := hfades.redis (not_isTagKey_metaKey _ _) hentry
      rw [hmeta] at hbefore
      cases hbefore
  have hbody : s.objects.lookup place = none := habsent.fades hfades
  unfold lookUp
  rw [Backends.run_onStores_read (only_getWithStale _ _ p), hstorage,
    getWithStale_of_none hplace' (metaOf_of_lookup_none hgone), hbody]
  rfl

/-! ## A query that is sorted for the proxy and not for the purge -/

theorem plain_of_valid {siteId : Str} (h : validateSiteId siteId = .ok ()) :
    strContains "/" siteId = false ∧ (strContains "/" siteId || strContains "\\" siteId
      || strContains ".." siteId || siteId.isEmpty) = false := by
  unfold validateSiteId at h
  split at h
  next => cases h
  next hempty =>
    split at h
    · cases h
    split at h
    next => cases h
    next hplain =>
      rw [Bool.not_eq_true] at hplain hempty
      rw [hplain, hempty]
      simp only [Bool.or_eq_false_iff] at hplain
      exact ⟨hplain.1.1, rfl⟩

theorem safeSiteId_of_valid {siteId : Str} (h : validateSiteId siteId = .ok ()) :
    safeSiteId siteId = siteId := by
  unfold safeSiteId
  rw [(plain_of_valid h).2, if_neg Bool.false_ne_true]

def storedPage (siteId key : Str) : Write :=
  { siteId, cacheKey := key, builtAt := ⟨0, Clock.zero_bound⟩, status := 200,
    headers := [], ttl := 3600
    staleWhileRevalidate := 0, tags := [], body := [33] }

theorem stores_run_put (w : Write) (sys : CacheSystem) : (CacheSystem.run p [.put w] sys).stores
      = ((CacheStorage.full.put p w.siteId w.cacheKey w.metadata w.body).run Stores.serve
        sys.stores).2 := rfl

def toyDigest (text : Bytes) (x : Bytes) : Str := if x = text then "aa" else "bb"

theorem querySettled_of_purgeWorks
    (hvary : proxy.site.cache.varyHeaders = []) (hsite : validateSiteId proxy.site.siteId = .ok ())
    (hurl : validatePurgeUrl proxy.host proxy.path = .ok ())
    (h : ∀ md5, PurgeWorks p (proxy.withMd5 md5)) : QuerySettled proxy := by
  by_contra hsettled
  let request : Request := { method := "GET", headers := [] }
  let md5 := toyDigest (purgeParts proxy).hashed
  let state : AdminState := ⟨.full, true, [proxy.site.siteId], md5, []⟩
  have hpurgeKey : generateCacheKey md5 (purgeParts proxy) = "aa" := if_pos rfl
  have hkey : (proxy.withMd5 md5).cacheKey request = "bb" :=
    if_neg fun heq => hsettled ((hashed_purgeParts_iff hvary request).1 heq.symm)
  -- the two keys have places of their own
  have hdistinct : Distinct [(proxy.site.siteId, "aa"), (proxy.site.siteId, "bb")] := by
    refine distinct_of_length (n := 2) ?_
    have hsafe := safeSiteId_of_valid hsite
    rintro a ha
    rcases mem_cons.1 ha with rfl | ha
    · exact ⟨rfl, hsafe⟩
    · rw [mem_singleton.1 ha]
      exact ⟨rfl, hsafe⟩
  have hnot : ¬ SamePlace (proxy.site.siteId, "aa") (proxy.site.siteId, "bb") := by
    intro hsame
    have heq := hdistinct _ (mem_cons_self ..) _ (mem_cons_of_mem _ (mem_cons_self ..)) hsame
    exact absurd (Prod.mk.inj heq).2 (by decide)
  obtain ⟨placeA, hplaceA⟩ : ∃ place,
      (cacheObjectPath proxy.site.siteId "aa" : Exec Empty Str) = .ok place :=
    ⟨_, rfl⟩
  obtain ⟨placeB, hplaceB⟩ : ∃ place,
      (cacheObjectPath proxy.site.siteId "bb" : Exec Empty Str) = .ok place :=
    ⟨_, rfl⟩
  have hplaces : placeB ≠ placeA := fun heq => hnot (.inr ⟨placeA, hplaceA, heq ▸ hplaceB⟩)
  have hmetas : metaKey proxy.site.siteId "bb" ≠ metaKey proxy.site.siteId "aa" :=
    fun heq => hnot (.inl heq.symm)
  -- the page is stored under the one key and the other one is purged
  obtain ⟨s, hput, hclock, hobjects, hentry, -⟩ := run_put p
    (w := storedPage proxy.site.siteId "bb") hplaceB (CacheSystem.empty ⟨0, by decide⟩).stores
  have hstores := (stores_run_put p (storedPage proxy.site.siteId "bb")
    (.empty ⟨0, by decide⟩)).trans (congrArg Prod.snd hput)
  obtain ⟨s', hpurge, hclock', hobjects', -, hother⟩ :=
    run_purgeCacheUrl state proxy.site.siteId proxy.host
    proxy.path proxy.query false [] ⟨hsite, hurl, by simp [state]⟩ rfl hpurgeKey hplaceA s onePage
  -- which leaves the page where it was
  have hclock : s'.clock = ⟨0, by decide⟩ := hclock'.trans hclock
  have hfound := metaOf_of_lookup ((hother _ (not_isTagKey_metaKey _ _) hmetas).trans hentry)
    (by rw [hclock]; simp)
  have hfresh : s'.clock.timestamp < (storedPage proxy.site.siteId "bb").metadata.expiresAt := by
    have hexpires : 0 < (storedPage [] []).metadata.expiresAt := by decide +kernel
    rw [hclock]
    exact hexpires
  have hread := getWithStale_of_fresh (p := p) hplaceB hfound hfresh
  rw [hobjects', AList.lookup_erase_ne hplaces, hobjects, AList.lookup_insert] at hread
  have hmissed := (h md5 state [] ⟨0, by decide⟩ [.put (storedPage proxy.site.siteId "bb")] onePage
    [] _ _ ⟨s', onePage, [], []⟩ rfl (by rw [hstores]; exact hpurge) request _ (.refl _)).1
  unfold lookUp at hmissed
  rw [hkey, Backends.run_onStores] at hmissed
  exact hmissed _ hread

/-- **Purging a URL.** On a site without vary headers, a purge that names the URL and is answered
200 makes the next request a miss exactly if the query of the URL is settled, or the purge is never
accepted. -/
theorem purgeWorks_iff (p : Profile) (proxy : CdnProxy)
    (hvary : proxy.site.cache.varyHeaders = []) :
    (∀ md5, PurgeWorks p (proxy.withMd5 md5)) ↔
      (validateSiteId proxy.site.siteId = .ok () → validatePurgeUrl proxy.host proxy.path = .ok () →
        QuerySettled proxy) := by
  constructor
  · intro h hsite hurl
    exact querySettled_of_purgeWorks p hvary hsite hurl h
  · intro h md5 state taskId clock events paging outages reply tasks purged hmd5 hrun
    have haccepted := accepted_of_run hrun
    have hvary' : (proxy.withMd5 md5).site.cache.varyHeaders = [] := hvary
    exact purgeWorks_of_querySettled p hvary' (h haccepted.site haccepted.url) state
      taskId clock events
      paging outages reply tasks purged hmd5 hrun

theorem purgeWorks_iff_page :
    plainSite.site.cache.varyHeaders = [] ∧ ∀ md5, PurgeWorks .release (plainSite.withMd5 md5) :=
  ⟨rfl, (purgeWorks_iff .release plainSite rfl).2 fun _ _ hsort => absurd hsort (by decide)⟩

def sortedSite : CdnProxy :=
  { plainSite with
    site := ⟨"site1", { sortQueryString := true }, true⟩
    query := some "b=2&a=1" }

/-- The page is stored under the sorted query, the purge deletes under the query as it came, and the
page is still there. -/
theorem purgeWorks_fails : (purgeParts sortedSite).queryPart = strBytes "b=2&a=1" ∧
      (sortedSite.requestParts plainGet).queryPart = strBytes "a=1&b=2" ∧
      ¬ ∀ md5, PurgeWorks .release (sortedSite.withMd5 md5) := by
  refine ⟨by decide, by decide +kernel, fun h => ?_⟩
  have hsettled := querySettled_of_purgeWorks .release rfl rfl rfl h rfl
  revert hsettled
  decide +kernel

end Nozdormu.Admin
