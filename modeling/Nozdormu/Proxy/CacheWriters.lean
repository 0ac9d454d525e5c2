import Nozdormu.Cache.KeySharing
import Nozdormu.Proxy.CompleteAnswers

/-!
# The four writers of the cache

A response gets into the cache by a miss of the proxy, by a background revalidation, by a warm-up
that the administrator asked for (`admin/warm.rs`), or because it is a segment of a manifest that
went through (`cdn-streaming/src/prefetch/worker.rs`).
-/

namespace Nozdormu.Proxy

open Rust Bmff Cache HeaderMap List

structure WarmUrl where
  host : Str
  path : Str
  queryString : Option Str := none
deriving DecidableEq, Repr

/-- The query of an absolute URL stays with the path. -/
def parseUrlComponents (url defaultHost : Str) : Str × Str :=
  match (stripStart "http://" url).or (stripStart "https://" url) with
  | some rest =>
    if rest.contains '/' then (rest.takeWhile (· ≠ '/'), rest.dropWhile (· ≠ '/'))
    else (defaultHost, url)
  | none => (defaultHost, url)

variable {response : OriginResponse} {proxy : CdnProxy} {request : Request} {ctx : ProxyCtx}
  {now : Clock} {w : Write}

namespace CdnProxy

variable (self : CdnProxy)

def warmParts (url : WarmUrl) : KeyParts where
  siteId := strBytes self.site.siteId
  host := strBytes url.host
  path := strBytes url.path
  queryString := url.queryString.map strBytes
  sortQueryString := self.site.cache.sortQueryString
  varyHeaders := []

def warmKey (url : WarmUrl) : Str := generateCacheKey self.md5 (self.warmParts url)

def prefetchParts (url host : Str) : KeyParts where
  siteId := strBytes self.site.siteId
  host := strBytes (parseUrlComponents url host).1
  path := strBytes (parseUrlComponents url host).2
  queryString := none
  sortQueryString := false
  varyHeaders := []

def prefetchKey (url host : Str) : Str := generateCacheKey self.md5 (self.prefetchParts url host)

def warmedWrite (url : WarmUrl) (now : Clock) (response : OriginResponse) : Write :=
  self.revalidatedWrite (self.warmKey url) now response

def maxPrefetchBody : Nat := 256 * 1024 * 1024

/-- The write of `prefetch_segments`, for a URL that has no entry. -/
def prefetchedWrite (url host : Str) (now : Clock) (response : OriginResponse) : Option Write :=
  if maxPrefetchBody < response.content.length then none
  else some
    { siteId := self.site.siteId
      cacheKey := self.prefetchKey url host
      builtAt := now
      status := response.status
      headers := response.headers.map fun h => (h.1, (valueStr h.2).getD [])
      ttl := self.site.cache.defaultTtl
      staleWhileRevalidate := 0
      tags := []
      body := response.content }

def copied (now : Clock) : List (Option Bytes) → ProxyCtx → Option Write
  | [], _ => none
  | [data], ctx => (self.cacheBody now data true ctx).2
  | data :: next :: calls, ctx => copied now (next :: calls) (self.cacheBody now data false ctx).1

/-- The write of a request that was not found: the headers come at `now`, the body ends at `built`.
-/
def missWrite (request : Request) (now built : Clock) (response : OriginResponse) : Option Write :=
  match self.decision request with
  | .ok decision =>
    if decision.cacheable then
      self.copied built response.body
        (self.responseFilter now request response (self.missed request decision.ttl))
    else none
  | .error _ => none

inductive Writer where
  | miss (request : Request)
  | revalidation (key : Str)
  | warmUp (url : WarmUrl)
  | prefetch (url host : Str)

def written (now built : Clock) (response : OriginResponse) : Writer → Option Write
  | .miss request => self.missWrite request now built response
  | .revalidation key => some (self.revalidatedWrite key now response)
  | .warmUp url => some (self.warmedWrite url now response)
  | .prefetch url host => self.prefetchedWrite url host now response

/-! ## The copy of a miss

What `finishedWrite` would write stands for the copy so far. A chunk makes it longer, until it is
longer than the site allows and nothing will be written. -/

section

variable (hw : self.finishedWrite now ctx = some w)
include hw

theorem finishedWrite_accumulate (hsize : ctx.responseBodySize = w.body.length)
    (data : Option Bytes) (hfits : w.body.length + (data.getD []).length ≤
      self.site.cache.maxSize.toNat) :
    self.finishedWrite now (self.accumulate data ctx) = some
    { w with body := w.body ++ data.getD [] } ∧
      (self.accumulate data ctx).responseBodySize = (w.body ++ data.getD []).length := by
  unfold finishedWrite at hw
  split at hw
  next buffers key ttl hbuffers hkey httl =>
    cases hw
    cases data with
    | none =>
      have hctx : self.accumulate none ctx = ctx := rfl
      rw [hctx, Option.getD_none, append_nil]
      exact ⟨by simp only [finishedWrite, hbuffers, hkey, httl], hsize⟩
    | some data =>
      rw [Option.getD_some] at hfits
      simp only [accumulate, hbuffers, hsize]
      rw [if_neg (Nat.not_lt.2 hfits)]
      simp [finishedWrite, hkey, httl]
  next => cases hw

theorem isSome_of_finishedWrite : ctx.responseBody.isSome ∧ ctx.cacheKey.isSome := by
  unfold finishedWrite at hw
  split at hw
  next buffers key ttl hbuffers hkey httl => simp [hbuffers, hkey]
  next => cases hw

end

theorem finishedWrite_of_cacheKey_none (now : Clock) (h : ctx.cacheKey = none) :
    self.finishedWrite now ctx = none := by
  cases hw : self.finishedWrite now ctx with
  | none => rfl
  | some w =>
    have hkey := (self.isSome_of_finishedWrite hw).2
    rw [h] at hkey
    cases hkey

theorem copied_of_cacheKey_none (now : Clock) (calls : List (Option Bytes))
    (h : ctx.cacheKey = none) : self.copied now calls ctx = none := by
  have hskip : ∀ data eos, self.cacheBody now data eos ctx = (ctx, none) := by
    intro data eos
    unfold cacheBody
    rw [if_neg (by simp [h])]
  induction calls with
  | nil => rfl
  | cons data calls ih =>
    cases calls with
    | nil => rw [copied, hskip]
    | cons next calls => rw [copied, hskip, ih]

theorem copied_eq (now : Clock) (calls : List (Option Bytes)) : ∀ {ctx : ProxyCtx} {w : Write},
    self.finishedWrite now ctx = some w → ctx.responseBodySize = w.body.length →
    w.body.length ≤ self.site.cache.maxSize.toNat → calls ≠ [] →
    self.copied now calls ctx =
      if w.body.length + (bytesOf calls).length ≤ self.site.cache.maxSize.toNat then
        some { w with body := w.body ++ bytesOf calls }
      else none := by
  induction calls with
  | nil => intro ctx w _ _ _ hne; exact absurd rfl hne
  | cons data calls ih =>
    intro ctx w hw hsize hfits _
    have hopen := self.isSome_of_finishedWrite hw
    rw [bytesOf_cons, length_append, ← Nat.add_assoc, ← append_assoc]
    -- the copy is given up at this chunk, or goes on
    rcases Nat.lt_or_ge self.site.cache.maxSize.toNat (w.body.length + (data.getD []).length)
      with hnow | hlater
    · have hkey : (self.accumulate data ctx).cacheKey = none := by
        obtain ⟨buffers, hbuffers, -⟩ := self.of_finishedWrite hw
        cases data with
        | none => exact absurd hnow (Nat.not_lt.2 hfits)
        | some data =>
          rw [Option.getD_some] at hnow
          simp only [accumulate, hbuffers, hsize]
          rw [if_pos hnow]
      rw [if_neg (by omega)]
      cases calls with
      | nil =>
        simp only [copied, cacheBody, if_pos hopen, if_true]
        exact self.finishedWrite_of_cacheKey_none now hkey
      | cons next calls =>
        simp only [copied, cacheBody, if_pos hopen, Bool.false_eq_true, if_false]
        exact self.copied_of_cacheKey_none now _ hkey
    · obtain ⟨hw', hsize'⟩ := self.finishedWrite_accumulate hw hsize data hlater
      rw [← length_append] at hlater ⊢
      cases calls with
      | nil =>
        simp only [copied, cacheBody, if_pos hopen, if_true]
        rw [hw', if_pos (by exact hlater), bytesOf, flatMap_nil, append_nil]
      | cons next calls =>
        simp only [copied, cacheBody, if_pos hopen, Bool.false_eq_true, if_false]
        exact ih hw' hsize' hlater (cons_ne_nil _ _)

/-- The origin's answer to a request that was not found gets into the cache. -/
structure Storable (proxy : CdnProxy) (request : Request) (response : OriginResponse) : Prop where
  accepted : RequestAccepted proxy.profile proxy.compile request.method proxy.path
    (text request.headers "cache-control")
    (get request.headers "authorization").isSome proxy.site.cache
  status : response.status ∈ cacheableStatuses
  marks : ¬ (marksOf response.headers).Refuse proxy.site.cache
  size : response.content.length ≤ proxy.site.cache.maxSize.toNat
  ended : response.body ≠ []

theorem finishedWrite_responseFilter (now built : Clock) (request : Request) (ttl : UInt64)
    (hstatus : response.status ∈ cacheableStatuses)
    (hmarks : ¬ (marksOf response.headers).Refuse self.site.cache) :
    ∃ w, self.finishedWrite built
    (self.responseFilter now request response (self.missed request ttl))
        = some w ∧ w.body = [] ∧
      w.ttl = adjustTtl self.parseDate now ttl (text response.headers "cache-control")
        (text response.headers "expires") ∧
      (self.responseFilter now request response (self.missed request ttl)).responseBodySize = 0 :=
        by
  have hpass := (checkResponseCacheability_iff response.status _ _).2 ⟨hstatus, hmarks⟩
  rw [← marksOf_stampHeaders request (self.missed request ttl)] at hpass
  have htext : ∀ key ∈ ["cache-control", "expires"],
      text (stampHeaders request (self.missed request ttl) response.headers) key
        = text response.headers key := by
    intro key hkey
    unfold text
    rw [get_stampHeaders]
    revert key
    decide
  have hmiss : (self.missed request ttl).cacheKey.isSome ∧
      (self.missed request ttl).cacheStatus = .miss :=
    ⟨rfl, rfl⟩
  unfold responseFilter
  rw [if_pos hmiss, if_pos hpass]
  refine ⟨_, rfl, rfl, ?_, rfl⟩
  rw [htext _ (by decide), htext _ (by decide)]
  rfl

theorem missWrite_of_storable (now built : Clock) (h : proxy.Storable request response) :
    ∃ w ttl, proxy.missWrite request now built response = some w ∧
      w.body = response.content ∧ 0 < ttl ∧
      w.ttl = adjustTtl proxy.parseDate now ttl (text response.headers "cache-control")
        (text response.headers "expires") := by
  obtain ⟨ttl, hzero, hdecision⟩ := cacheable_of_requestAccepted h.accepted
  obtain ⟨w, hw, hbody, httl, hsize⟩ := proxy.finishedWrite_responseFilter now built request ttl
    h.status h.marks
  have hlength : w.body.length = 0 := by rw [hbody]; rfl
  have hcopied := proxy.copied_eq built response.body hw (hsize.trans hlength.symm)
    (by omega) h.ended
  rw [hlength, Nat.zero_add, if_pos (by exact h.size)] at hcopied
  refine ⟨{ w with body := w.body ++ bytesOf response.body }, ttl, ?_, ?_,
    UInt64.pos_iff_ne_zero.2 hzero, httl⟩
  · unfold missWrite decision
    rw [hdecision]
    exact hcopied
  · rw [hbody]
    rfl

theorem storable_of_missWrite {built : Clock}
    (h : proxy.missWrite request now built response = some w) :
    proxy.Storable request response := by
  unfold missWrite at h
  split at h
  next decision hdecision =>
    split at h
    next hcacheable =>
      by_cases hpass : response.status ∈ cacheableStatuses ∧
        ¬ (marksOf response.headers).Refuse proxy.site.cache
      · obtain ⟨begun, hbegun, hbody, -, hsize⟩ :=
          proxy.finishedWrite_responseFilter now built request
          decision.ttl hpass.1 hpass.2
        have hlength : begun.body.length = 0 := by rw [hbody]; rfl
        have hended : response.body ≠ [] := by
          intro hnil
          rw [hnil] at h
          cases h
        refine ⟨requestAccepted_of_cacheable hdecision hcacheable, hpass.1, hpass.2, ?_, hended⟩
        by_contra hlarge
        rw [proxy.copied_eq built response.body hbegun (hsize.trans hlength.symm) (by omega) hended,
          hlength, Nat.zero_add, if_neg (by exact hlarge)] at h
        cases h
      · rw [← checkResponseCacheability_iff,
          ← marksOf_stampHeaders request (proxy.missed request decision.ttl)] at hpass
        rw [responseFilter, if_pos (by exact ⟨rfl, rfl⟩), if_neg hpass,
          proxy.copied_of_cacheKey_none built _ rfl] at h
        cases h
    next => cases h
  next => cases h

/-! ## What each writer stores -/

/-- A write that should be in the cache: its response may be cached, is not too large for the site,
and is good for some time. -/
structure Proper (proxy : CdnProxy) (response : OriginResponse) (w : Write) : Prop where
  cacheable : (checkResponseCacheability response.status (marksOf response.headers)
    proxy.site.cache).cacheable = true
  ttl : 0 < w.ttl
  size : w.body.length ≤ proxy.site.cache.maxSize.toNat

/-- A status that may be cached, no header against it, and a body that is not too large. -/
structure Acceptable (proxy : CdnProxy) (response : OriginResponse) : Prop where
  status : response.status ∈ cacheableStatuses
  marks : ¬ (marksOf response.headers).Refuse proxy.site.cache
  size : response.content.length ≤ proxy.site.cache.maxSize.toNat

/-- What has to be true of a response for its writer not to do harm. -/
def Warranted (proxy : CdnProxy) (now : Clock) (response : OriginResponse) : Writer → Prop
  | .miss request =>
    proxy.Storable request response →
      ¬ Expired proxy.parseDate now (text response.headers "cache-control".toList)
        (text response.headers "expires".toList)
  | .revalidation _ | .warmUp _ =>
    let headers := response.headers.map fun h => (h.1, (valueStr h.2).getD [])
    proxy.Acceptable response ∧ 0 < proxy.site.cache.defaultTtl ∧
      ¬ Expired proxy.parseDate now (headers.lookup "cache-control".toList)
        (headers.lookup "expires".toList)
  | .prefetch _ _ =>
    response.content.length ≤ maxPrefetchBody →
      proxy.Acceptable response ∧ 0 < proxy.site.cache.defaultTtl

theorem proper_iff_acceptable (hbody : w.body = response.content) :
    proxy.Proper response w ↔ proxy.Acceptable response ∧ 0 < w.ttl := by
  constructor
  · intro h
    have hpass := (checkResponseCacheability_iff _ _ _).1 h.cacheable
    exact ⟨⟨hpass.1, hpass.2, hbody ▸ h.size⟩, h.ttl⟩
  · intro h
    obtain ⟨hacceptable, httl⟩ := h
    refine ⟨(checkResponseCacheability_iff _ _ _).2 ⟨hacceptable.status, hacceptable.marks⟩, httl,
      ?_⟩
    rw [hbody]
    exact hacceptable.size

theorem proper_revalidatedWrite_iff (key : Str) (now : Clock) (response : OriginResponse) :
    proxy.Proper response (proxy.revalidatedWrite key now response) ↔
      proxy.Warranted now response (.revalidation key) := by
  rw [proper_iff_acceptable (show (proxy.revalidatedWrite key now response).body = _ from rfl)]
  exact and_congr_right fun _ => adjustTtl_pos_iff _ _ _ _ _

/-- A miss is checked and only its time to live can be wrong; the other writers store whatever comes
back. -/
theorem proper_iff (proxy : CdnProxy) (now built : Clock) (response : OriginResponse)
    (writer : Writer) :
    (∀ w, proxy.written now built response writer = some w → proxy.Proper response w) ↔
      proxy.Warranted now response writer := by
  have hsome : ∀ stored : Write,
      (∀ w, some stored = some w → proxy.Proper response w) ↔ proxy.Proper response stored := by
    intro stored
    simp only [Option.some.injEq, forall_eq']
  cases writer with
  | miss request =>
    constructor
    · intro h hstorable
      obtain ⟨w, ttl, hw, hbody, -, httl⟩ := missWrite_of_storable now built hstorable
      have hpos := (h w hw).ttl
      rw [httl, adjustTtl_pos_iff] at hpos
      exact hpos.2
    · intro h w hw
      have hstorable := storable_of_missWrite hw
      obtain ⟨w', ttl, hw', hbody, hpos, httl⟩ := missWrite_of_storable now built hstorable
      obtain rfl : w' = w := Option.mem_unique hw' hw
      rw [proper_iff_acceptable hbody, httl, adjustTtl_pos_iff]
      exact ⟨⟨hstorable.status, hstorable.marks, hstorable.size⟩, hpos, h hstorable⟩
  | revalidation key => exact (hsome _).trans (proper_revalidatedWrite_iff key now response)
  | warmUp url =>
    exact (hsome _).trans (proper_revalidatedWrite_iff (proxy.warmKey url) now response)
  | prefetch url host =>
    simp only [written, prefetchedWrite, Warranted]
    split
    next hlarge =>
      refine ⟨fun _ hfits => absurd hfits (Nat.not_le.2 hlarge), ?_⟩
      intro _ w hw
      cases hw
    next hfits =>
      rw [hsome, proper_iff_acceptable rfl]
      exact ⟨fun h _ => h, fun h => h (Nat.not_lt.1 hfits)⟩

def epoch : Clock := ⟨0, Clock.zero_bound⟩

def errorPage : OriginResponse :=
  ⟨500, [("cache-control", strBytes "no-store")], [some [33]]⟩

def momentaryPage : OriginResponse :=
  ⟨200, [("cache-control", strBytes "max-age=0")], [some [33]]⟩

/-- A revalidation puts an error in the place of a page, and a miss stores a page for no time. -/
theorem proper_fails : (∃ w, plainSite.written epoch epoch errorPage
    (.revalidation "key") = some w ∧
      ¬ plainSite.Proper errorPage w) ∧
    ∃ w, plainSite.written epoch epoch momentaryPage (.miss plainGet) = some w ∧
      ¬ plainSite.Proper momentaryPage w := by
  refine ⟨⟨_, rfl, fun h => ?_⟩, ⟨_, rfl, fun h => ?_⟩⟩
  · exact absurd h.cacheable (by decide +kernel)
  · exact absurd h.ttl (by decide +kernel)

/-! ## Where each writer stores -/

def isTokenChar (c : Char) : Bool := c.isAlphanum || "!#$%&'*+-.^_`|~".toList.contains c

def IsHeaderName (name : Str) : Prop := name ≠ [] ∧ ∀ c ∈ name, isTokenChar c = true

instance (name : Str) : Decidable (IsHeaderName name) :=
  decidable_of_iff (name ≠ [] ∧ name.all isTokenChar = true) (by simp [IsHeaderName])

/-- A request that the HTTP library can have read. -/
def Formed (request : Request) : Prop := ∀ h ∈ request.headers, IsHeaderName h.1

def plainRequest : Request :=
  { method := "GET", headers := [("host", strBytes self.host)] }

def urlText (secure : Bool) : Str :=
  (if secure then "https://" else "http://") ++
    (self.host ++ (self.path ++ self.query.elim [] fun q => '?' :: q))

def withMd5 (md5 : Bytes → Str) : CdnProxy := { self with md5 }

/-- A warm-up and a prefetch of the URL store where a plain request looks, whatever the digest does,
and what a revalidation fetches is the variant that the key of the stale request names. -/
structure SameKey (proxy : CdnProxy) : Prop where
  warmUp : ∀ md5, (proxy.withMd5 md5).warmKey ⟨proxy.host, proxy.path, proxy.query⟩
    = (proxy.withMd5 md5).cacheKey proxy.plainRequest
  prefetch : ∀ md5 secure defaultHost,
    (proxy.withMd5 md5).prefetchKey (proxy.urlText secure) defaultHost
    = (proxy.withMd5 md5).cacheKey proxy.plainRequest
  revalidation : ∀ request, Formed request →
    proxy.varyValues proxy.revalidationRequest = proxy.varyValues request

theorem mem_varyValues {name value : Str} : (name, value) ∈ self.varyValues request ↔
      name ∈ self.site.cache.varyHeaders ∧ text request.headers name = some value := by
  unfold varyValues
  rw [mem_filterMap]
  constructor
  · intro h
    obtain ⟨name', hname, hvalue⟩ := h
    obtain ⟨value', htext, heq⟩ := Option.map_eq_some_iff.1 hvalue
    cases heq
    exact ⟨hname, htext⟩
  · intro h
    exact ⟨name, h.1, by rw [h.2]; rfl⟩

theorem varyValues_of_formed (hformed : Formed request)
    (hnames : ∀ name ∈ self.site.cache.varyHeaders, ¬ IsHeaderName (name.map Char.toLower)) :
    self.varyValues request = [] := by
  rw [eq_nil_iff_forall_not_mem]
  intro h hmem
  obtain ⟨name, value⟩ := h
  obtain ⟨hname, htext⟩ := self.mem_varyValues.1 hmem
  obtain ⟨bytes, hget, -⟩ := Option.bind_eq_some_iff.1 htext
  obtain ⟨before, after, hheaders, -⟩ := lookup_eq_some_iff.1 hget
  refine hnames name hname (hformed (name.map Char.toLower, bytes) ?_)
  rw [hheaders]
  exact mem_append_cons_self

theorem parseUrlComponents_urlText (hhost : '/' ∉ self.host) (hpath : self.path.head? = some '/')
    (secure : Bool) (defaultHost : Str) :
    parseUrlComponents (self.urlText secure) defaultHost
      = (self.host, self.path ++ self.query.elim [] fun q => '?' :: q) := by
  obtain ⟨tail, htail⟩ := List.head?_eq_some_iff.1 hpath
  have hkeep : ∀ c ∈ self.host, decide (c ≠ '/') = true :=
    fun c hc => decide_eq_true fun heq => hhost (heq ▸ hc)
  have hrest : (stripStart "http://" (self.urlText secure)).or
      (stripStart "https://" (self.urlText secure))
      = some (self.host ++ (self.path ++ self.query.elim [] fun q => '?' :: q)) := by
    cases secure with
    | false | true => rfl
  unfold parseUrlComponents
  rw [hrest, htail]
  simp only
  rw [if_pos (by simp), takeWhile_append_of_pos hkeep, dropWhile_append_of_pos hkeep,
    cons_append, takeWhile_cons_of_neg (by simp), dropWhile_cons_of_neg (by simp),
    append_nil]

theorem strBytes_append (a b : Str) : strBytes (a ++ b) = strBytes a ++ strBytes b :=
  flatMap_append

def requestParts (request : Request) : KeyParts where
  siteId := strBytes self.site.siteId
  host := strBytes self.host
  path := strBytes self.path
  queryString := self.query.map strBytes
  sortQueryString := self.site.cache.sortQueryString
  varyHeaders := (self.varyValues request).map fun h => (strBytes h.1, strBytes h.2)

theorem eq_of_forall_md5 {a b : Bytes} (h : ∀ md5 : Bytes → Str, md5 a = md5 b) : a = b := by
  by_contra hne
  have hdigest := h fun x => if x = b then ['b'] else []
  rw [if_neg hne, if_pos rfl] at hdigest
  cases hdigest

theorem formed_plainRequest : Formed self.plainRequest := by
  have hhost : IsHeaderName "host" := by decide
  intro e he
  rw [mem_singleton.1 he]
  exact hhost

theorem formed_revalidationRequest : Formed self.revalidationRequest := by
  have hnames : ∀ name ∈ ["host".toList, "user-agent".toList, "accept".toList],
      IsHeaderName name := by
    decide
  intro h hmem
  exact hnames h.1 (mem_map_of_mem hmem)

/-- The keys of the writers agree with those of requests for a URL without a query, on a site whose
vary headers no request can carry. -/
theorem sameKey_iff (proxy : CdnProxy) (hhost : '/' ∉ proxy.host)
    (hpath : proxy.path.head? = some '/') :
    proxy.SameKey ↔ proxy.query = none ∧
      ∀ name ∈ proxy.site.cache.varyHeaders, ¬ IsHeaderName (name.map Char.toLower) := by
  constructor
  · intro h
    constructor
    · cases hquery : proxy.query with
      | none => rfl
      | some q =>
        -- behind the path stands a question mark for the one and a colon for the other
        have heq : (proxy.prefetchParts (proxy.urlText false) []).hashed =
            (proxy.requestParts _).hashed :=
          eq_of_forall_md5 fun md5 => h.prefetch md5 false []
        unfold KeyParts.hashed prefetchParts requestParts at heq
        rw [proxy.parseUrlComponents_urlText hhost hpath] at heq
        have hbehind := (List.cons.inj (append_cancel_left (List.cons.inj
          (append_cancel_left heq)).2)).2
        rw [hquery, Option.elim_some, strBytes_append, append_assoc] at hbehind
        have hhead := append_cancel_left hbehind
        exact absurd (List.cons.inj hhead).1 (by decide)
    · -- two requests tell any header name apart: one carries it and one does not
      intro name hname hheader
      have hcarried := h.revalidation
        { method := "GET", headers := [(name.map Char.toLower, [120])] } (by
          intro e he
          rw [mem_singleton.1 he]
          exact hheader)
      have hmem : (name, ['x']) ∈ proxy.varyValues
          { method := "GET", headers := [(name.map Char.toLower, [120])] } := by
        refine proxy.mem_varyValues.2 ⟨hname, ?_⟩
        unfold HeaderMap.text HeaderMap.get
        rw [lookup_cons_self]
        rfl
      rw [← hcarried, h.revalidation { method := "GET", headers := [] } nofun] at hmem
      cases (proxy.mem_varyValues.1 hmem).2
  · intro h
    obtain ⟨hquery, hnames⟩ := h
    have hvary := proxy.varyValues_of_formed proxy.formed_plainRequest hnames
    have hparts : proxy.requestParts proxy.plainRequest = proxy.warmParts
        ⟨proxy.host, proxy.path, proxy.query⟩ := by
      unfold requestParts
      rw [hvary]
      rfl
    refine ⟨?_, ?_, ?_⟩
    · intro md5
      exact congrArg (fun a : KeyParts => md5 a.hashed) hparts.symm
    · intro md5 secure defaultHost
      have hprefetch : (proxy.prefetchParts (proxy.urlText secure) defaultHost).hashed
          = (proxy.warmParts ⟨proxy.host, proxy.path, proxy.query⟩).hashed := by
        unfold prefetchParts warmParts
        rw [proxy.parseUrlComponents_urlText hhost hpath, hquery, Option.elim_none, append_nil]
        rfl
      exact congrArg md5 (hprefetch.trans (congrArg KeyParts.hashed hparts.symm))
    · intro request hformed
      rw [proxy.varyValues_of_formed hformed hnames,
        proxy.varyValues_of_formed proxy.formed_revalidationRequest hnames]

theorem sameKey_iff_page : plainSite.SameKey :=
  (sameKey_iff plainSite (by decide) (by decide)).2 ⟨rfl, nofun⟩

def paged : CdnProxy := { plainSite with query := some "n=1" }

def varied : CdnProxy :=
  { plainSite with site := ⟨"site1", { varyHeaders := ["accept"] }, true⟩ }

def choosy : Request :=
  { method := "GET", headers := [("accept", strBytes "text/html")] }

/-- A segment with a query is stored where no request looks for it, and a stale page of one kind is
replaced by a page of any kind. -/
theorem sameKey_fails : ¬ paged.SameKey ∧ ¬ varied.SameKey := by
  constructor
  · intro h
    have hbytes : (paged.prefetchParts (paged.urlText true) []).hashed
        = (paged.requestParts paged.plainRequest).hashed :=
      eq_of_forall_md5 fun md5 => h.prefetch md5 true []
    revert hbytes
    decide +kernel
  · intro h
    have hvalues := h.revalidation choosy (by unfold Formed; decide)
    revert hvalues
    decide +kernel

end CdnProxy

end Nozdormu.Proxy
