import Nozdormu.Cache.StorageRuns
import Nozdormu.Cache.Strategy

/-!
# The cache in the filters of the proxy

`cdn-proxy/src/proxy.rs`: what `request_filter`, `response_filter` and `response_body_filter` do
about the cache, what `serve_cached_response` sends, and what a background revalidation stores.
The three filters talk to each other through the context of the request.
-/

namespace Nozdormu.Proxy

open Rust Bmff Cache List

/-- Names in lower case; the order says nothing. -/
abbrev HeaderMap := List (Str × Bytes)

/-- `HeaderValue::to_str`: visible ASCII and tabs. -/
def valueStr (value : Bytes) : Option Str :=
  if value.all fun b => (32 ≤ b && b < 127) || b = 9 then some
    (value.map fun b => Char.ofNat b.toNat)
  else none

def strBytes (s : Str) : Bytes := s.flatMap String.utf8EncodeChar

namespace HeaderMap

variable (headers : HeaderMap)

def get (name : Str) : Option Bytes := headers.lookup (name.map Char.toLower)

def text (name : Str) : Option Str := (headers.get name).bind valueStr

def insert (name value : Str) : HeaderMap :=
  headers.filter (·.1 ≠ name) ++ [(name, strBytes value)]

theorem lookup_filter_key {β : Type} (p : Str → Bool) (name : Str) (l : List (Str × β)) :
    (l.filter fun e => p e.1).lookup name = if p name then l.lookup name else none := by
  induction l with
  | nil => cases p name <;> rfl
  | cons e l ih =>
    obtain ⟨k, value⟩ := e
    by_cases hk : name = k
    · subst hk
      cases hp : p name <;> simp [hp, ih]
    · have hne : (name == k) = false := beq_false_of_ne hk
      cases hp : p k <;> simp [hp, ih, lookup_cons, hne]

theorem lookup_filter_ne {name key : Str} (h : key ≠ name) (headers : HeaderMap) :
    (headers.filter (·.1 ≠ name)).lookup key = headers.lookup key :=
  (lookup_filter_key (fun k => decide (k ≠ name)) key headers).trans (if_pos (decide_eq_true h))

theorem get_insert_of_ne {name key : Str} (h : key.map Char.toLower ≠ name) (headers : HeaderMap)
    (value : Str) : HeaderMap.get (HeaderMap.insert headers name value) key = HeaderMap.get
      headers key := by
  have hlast : List.lookup (key.map Char.toLower) [(name, strBytes value)] = none := by
    rw [lookup_cons, beq_false_of_ne h]
    rfl
  unfold get insert
  rw [lookup_append, lookup_filter_ne h, hlast, Option.or_none]

end HeaderMap

inductive ProtocolType where
  | http
  | webSocket
  | sse
  | grpc
deriving DecidableEq, Repr

structure Request where
  method : Str
  headers : HeaderMap
  protocolType : ProtocolType := .http
  requestId : Str := []
deriving DecidableEq, Repr

/-- What the origin sends. The body comes in calls of `response_body_filter`, the last of which is
the end of the stream; a response without such a call is never stored. -/
structure OriginResponse where
  status : UInt16
  headers : HeaderMap
  body : List (Option Bytes)
deriving DecidableEq, Repr

def bytesOf (calls : List (Option Bytes)) : Bytes := calls.flatMap fun data => data.getD []

theorem bytesOf_cons (data : Option Bytes) (calls : List (Option Bytes)) :
    bytesOf (data :: calls) = data.getD [] ++ bytesOf calls := flatMap_cons

def OriginResponse.content (response : OriginResponse) : Bytes := bytesOf response.body

structure ClientResponse where
  status : UInt16
  headers : HeaderMap
  body : Bytes
deriving DecidableEq, Repr

structure Site where
  siteId : Str
  cache : CacheConfig
  /-- An origin that is enabled and no backup, where revalidations go. -/
  hasOrigin : Bool
deriving DecidableEq, Repr

/-- One URL of one site, with the functions of libraries that the code calls. -/
structure CdnProxy where
  profile : Profile
  md5 : Bytes → Str
  /-- `Regex::new` -/
  compile : Str → Option (Str → Bool)
  /-- `DateTime::parse_from_rfc2822`, in seconds -/
  parseDate : Str → Option Int
  site : Site
  host : Str
  path : Str
  query : Option Str

inductive CacheStatus where
  | hit
  | miss
  | bypass
  | expired
  | stale
  | none
deriving DecidableEq, Repr

def CacheStatus.asStr : CacheStatus → Str
  | hit => "HIT"
  | miss => "MISS"
  | bypass => "BYPASS"
  | expired => "EXPIRED"
  | stale => "STALE"
  | none => "NONE"

structure ProxyCtx where
  cacheStatus : CacheStatus := .none
  cacheKey : Option Str := none
  cacheTtl : Option UInt64 := none
  cachedResponseStatus : UInt16 := 0
  cachedResponseHeaders : List (Str × Str) := []
  cachedResponseTags : List Str := []
  cachedResponseSwr : UInt64 := 0
  responseBody : Option (List Bytes) := none
  responseBodySize : Nat := 0
  isCoalescingLeader : Bool := false
deriving DecidableEq, Repr

variable {ctx : ProxyCtx} {data : Option Bytes} {now : Clock}

namespace CdnProxy

variable (self : CdnProxy)

/-! ## `request_filter` -/

variable (request : Request)

def varyValues : List (Str × Str) :=
  self.site.cache.varyHeaders.filterMap fun name =>
    (HeaderMap.text request.headers name).map fun value => (name, value)

def cacheKey : Str :=
  generateCacheKey self.md5
    { siteId := strBytes self.site.siteId
      host := strBytes self.host
      path := strBytes self.path
      queryString := self.query.map strBytes
      sortQueryString := self.site.cache.sortQueryString
      varyHeaders := (self.varyValues request).map fun h => (strBytes h.1, strBytes h.2) }

def decision : Exec Empty CacheDecision :=
  checkRequestCacheability self.profile self.compile request.method self.path
    (HeaderMap.text request.headers "cache-control")
    (HeaderMap.get request.headers "authorization").isSome self.site.cache

def detected : ProxyCtx :=
  { cacheStatus := if request.protocolType = .http then .none else .bypass }

def missed (ttl : UInt64) : ProxyCtx :=
  { cacheStatus := .miss, cacheKey := some (self.cacheKey request), cacheTtl := some ttl }

/-- The cached status and body go out to any request. -/
def serveCachedResponse (now : Clock) (request : Request) (status : CacheStatus)
    (cached : CachedResponse) : ClientResponse :=
  let stored : HeaderMap := cached.metadata.headers.foldl (fun h e => h.insert e.1 e.2) []
  { status := cached.metadata.status
    headers := stored
      |>.insert "x-cache-status" status.asStr
      |>.insert "x-request-id" request.requestId
      |>.insert "age" (toString (max 0 (now.timestamp - cached.metadata.cachedAt))).toList
      |>.insert "content-length" (digits cached.body.length)
    body := cached.body }

/-! ## `response_filter` -/

def stampHeaders (ctx : ProxyCtx) (headers : HeaderMap) : HeaderMap :=
  let stamped := headers
    |>.insert "server" "CDN"
    |>.insert "x-cache-status" ctx.cacheStatus.asStr
    |>.insert "x-request-id" request.requestId
  if request.protocolType = .http ∧ ctx.cacheKey.isSome then
    HeaderMap.insert stamped "accept-ranges" "bytes"
  else stamped

def marksOf (headers : HeaderMap) : ResponseMarks :=
  { cacheControl := headers.text "cache-control"
    hasSetCookie := (headers.get "set-cookie").isSome
    vary := headers.text "vary"
    contentLength := ((headers.text "content-length").bind (parseUInt 64)).map UInt64.ofNat }

theorem get_stampHeaders (ctx : ProxyCtx) (headers : HeaderMap) {key : Str}
    (hne : ∀ name ∈ ["server", "x-cache-status", "x-request-id",
      "accept-ranges"], key.map Char.toLower ≠ name) :
    HeaderMap.get (stampHeaders request ctx headers) key = HeaderMap.get headers key := by
  have hstamped : HeaderMap.get (((headers.insert "server" "CDN").insert
      "x-cache-status" ctx.cacheStatus.asStr).insert "x-request-id" request.requestId) key
      = headers.get key := by
    rw [HeaderMap.get_insert_of_ne (hne _ (by decide)),
      HeaderMap.get_insert_of_ne (hne _ (by decide)),
      HeaderMap.get_insert_of_ne (hne _ (by decide))]
  unfold stampHeaders
  split
  · rw [HeaderMap.get_insert_of_ne (hne _ (by decide)), hstamped]
  · exact hstamped

theorem marksOf_stampHeaders (ctx : ProxyCtx) (headers : HeaderMap) :
    marksOf (stampHeaders request ctx headers) = marksOf headers := by
  have hget : ∀ key ∈ ["cache-control", "set-cookie", "vary", "content-length"],
      HeaderMap.get (stampHeaders request ctx headers) key = HeaderMap.get headers key := by
    intro key hkey
    refine get_stampHeaders request ctx headers ?_
    revert key
    decide
  unfold marksOf HeaderMap.text
  rw [hget _ (by decide), hget _ (by decide), hget _ (by decide), hget _ (by decide)]

def captured (headers : HeaderMap) : List (Str × Str) :=
  headers.filterMap fun h => (valueStr h.2).map fun value => (h.1, value)

def responseFilter (now : Clock) (request : Request) (response : OriginResponse) (ctx : ProxyCtx) :
    ProxyCtx :=
  let headers := stampHeaders request ctx response.headers
  if ctx.cacheKey.isSome ∧ ctx.cacheStatus = .miss then
    if (checkResponseCacheability response.status (marksOf headers) self.site.cache).cacheable then
      let cacheControl := headers.text "cache-control"
      let kept := ctx.cachedResponseHeaders ++ captured headers
      { ctx with
        cacheTtl := some (adjustTtl self.parseDate now
          (ctx.cacheTtl.getD self.site.cache.defaultTtl)
          cacheControl (headers.text "expires"))
        cachedResponseStatus := response.status
        cachedResponseHeaders := kept
        cachedResponseTags := parseCacheTags kept
        cachedResponseSwr := parseStaleWhileRevalidate cacheControl
        responseBody := some [] }
    else { ctx with cacheKey := none }
  else ctx

/-! ## `response_body_filter` -/

/-- The copy for the cache grows by one chunk, or is given up. -/
def accumulate (data : Option Bytes) (ctx : ProxyCtx) : ProxyCtx :=
  match data, ctx.responseBody with
  | some data, some buffers =>
    let size := ctx.responseBodySize + data.length
    if self.site.cache.maxSize.toNat < size then
      { ctx with responseBody := none, responseBodySize := size, cacheKey := none }
    else { ctx with responseBody := some (buffers ++ [data]), responseBodySize := size }
  | _, _ => ctx

def finishedWrite (now : Clock) (ctx : ProxyCtx) : Option Write :=
  match ctx.responseBody, ctx.cacheKey, ctx.cacheTtl with
  | some buffers, some key, some ttl =>
    some
      { siteId := self.site.siteId
        cacheKey := key
        builtAt := now
        status := ctx.cachedResponseStatus
        headers := ctx.cachedResponseHeaders
        ttl
        staleWhileRevalidate := ctx.cachedResponseSwr
        tags := ctx.cachedResponseTags
        body := buffers.flatten }
  | _, _, _ => none

def cacheBody (now : Clock) (data : Option Bytes) (endOfStream : Bool) (ctx : ProxyCtx) :
    ProxyCtx × Option Write :=
  if ctx.responseBody.isSome ∧ ctx.cacheKey.isSome then
    let ctx := self.accumulate data ctx
    if endOfStream then
      ({ ctx with
          responseBody := none
          cachedResponseTags := if (self.finishedWrite now ctx).isSome then []
            else ctx.cachedResponseTags },
        self.finishedWrite now ctx)
    else (ctx, none)
  else (ctx, none)

theorem of_finishedWrite {w : Write} (h : self.finishedWrite now ctx = some w) :
    ∃ buffers, ctx.responseBody = some buffers ∧ w.body = buffers.flatten ∧
      w.status = ctx.cachedResponseStatus := by
  unfold finishedWrite at h
  split at h
  next buffers _ _ hbuffers _ _ =>
    cases h
    exact ⟨buffers, hbuffers, rfl, rfl⟩
  next => cases h

/-- The copy that goes on after a call, and the copy that is written at the end of the stream, is
the one from before the call and the chunk. -/
theorem of_cacheBody {endOfStream : Bool} {body : Bytes} {status : UInt16}
    (h : (∃ buffers, (self.cacheBody now data endOfStream ctx).1.responseBody = some buffers ∧
          (self.cacheBody now data endOfStream ctx).1.cacheKey.isSome ∧ body = buffers.flatten ∧
          status = (self.cacheBody now data endOfStream ctx).1.cachedResponseStatus) ∨
        ∃ w, (self.cacheBody now data endOfStream ctx).2 = some w ∧ body = w.body ∧
          status = w.status) :
    ∃ before, ctx.responseBody = some before ∧ ctx.cacheKey.isSome ∧
      body = before.flatten ++ data.getD [] ∧ status = ctx.cachedResponseStatus := by
  unfold cacheBody at h
  by_cases hkept : ctx.responseBody.isSome ∧ ctx.cacheKey.isSome
  · rw [if_pos hkept] at h
    have hcopy : ∃ buffers, (self.accumulate data ctx).responseBody = some buffers ∧
        body = buffers.flatten ∧ status = (self.accumulate data ctx).cachedResponseStatus := by
      cases endOfStream with
      | false =>
        rcases h with ⟨buffers, hbuffers, -, hbody, hstatus⟩ | ⟨w, hw, -⟩
        · exact ⟨buffers, hbuffers, hbody, hstatus⟩
        · cases hw
      | true =>
        rcases h with ⟨buffers, hbuffers, -⟩ | ⟨w, hw, hbody, hstatus⟩
        · cases hbuffers
        · obtain ⟨buffers, hbuffers, hbody', hstatus'⟩ := self.of_finishedWrite hw
          exact ⟨buffers, hbuffers, hbody.trans hbody', hstatus.trans hstatus'⟩
    obtain ⟨buffers, hbuffers, rfl, rfl⟩ := hcopy
    -- a copy that is kept has grown by the chunk
    obtain ⟨before, hbefore⟩ := Option.isSome_iff_exists.1 hkept.1
    refine ⟨before, hbefore, hkept.2, ?_⟩
    cases data with
    | none =>
      cases hbuffers.symm.trans hbefore
      exact ⟨(append_nil _).symm, rfl⟩
    | some data =>
      unfold accumulate at hbuffers ⊢
      simp only [hbefore] at hbuffers ⊢
      split at hbuffers
      next => cases hbuffers
      next hsize =>
        rw [if_neg hsize]
        cases hbuffers
        exact ⟨by rw [flatten_append, flatten_singleton, Option.getD_some], rfl⟩
  · rw [if_neg hkept] at h
    rcases h with ⟨buffers, hbuffers, hkey, -⟩ | ⟨w, hw, -⟩
    · exact absurd ⟨Option.isSome_of_eq_some hbuffers, hkey⟩ hkept
    · cases hw

/-- A leader lets go of its key: `remove` and `notify_waiters`. -/
def releaseLeader (ctx : ProxyCtx) : ProxyCtx × Option Str :=
  if ctx.isCoalescingLeader then ({ ctx with isCoalescingLeader := false }, ctx.cacheKey)
    else (ctx, none)

theorem releaseLeader_fst (ctx : ProxyCtx) :
    (releaseLeader ctx).1 = { ctx with isCoalescingLeader := false } := by
  unfold releaseLeader
  split
  next => rfl
  next hleader =>
    have hfalse : ctx.isCoalescingLeader = false := Bool.eq_false_iff.2 hleader
    rw [← hfalse]

/-- Two headers of `trigger_background_revalidation`, and the one that its client adds. -/
def revalidationRequest : Request :=
  { method := "GET"
    headers := [("host", strBytes self.host),
      ("user-agent", strBytes "Nozdormu-SWR/1.0"),
      ("accept", strBytes "*/*")] }

def revalidatedWrite (key : Str) (now : Clock) (response : OriginResponse) : Write :=
  let headers := response.headers.map fun h => (h.1, (valueStr h.2).getD [])
  let cacheControl := headers.lookup "cache-control".toList
  { siteId := self.site.siteId
    cacheKey := key
    builtAt := now
    status := response.status
    headers
    ttl := adjustTtl self.parseDate now self.site.cache.defaultTtl cacheControl
      (headers.lookup "expires".toList)
    staleWhileRevalidate := parseStaleWhileRevalidate cacheControl
    tags := parseCacheTags headers
    body := response.content }

end CdnProxy

end Nozdormu.Proxy
