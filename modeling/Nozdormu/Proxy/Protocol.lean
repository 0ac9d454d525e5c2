import Nozdormu.Proxy.CompleteAnswers

/-!
# Protocols other than HTTP

`cdn-proxy/src/protocol.rs` and the section of `request_filter` that calls it. A request that is
taken for gRPC, WebSocket or SSE gets the cache status `Bypass`; the section that follows decides
about the cache without reading it and overwrites it (`bypass_fails`).
-/

namespace Nozdormu.Proxy

open Rust Bmff Cache List

/-! ## `protocol.rs` -/

structure ProtocolConfig where
  websocketEnable : Bool := false
  sseEnable : Bool := false
  grpcEnabled : Bool := false
  /-- The services that may be called; none is all. -/
  grpcServices : List Str := []
deriving DecidableEq, Repr

def Request.text (request : Request) (name : String) : Str :=
  (HeaderMap.text request.headers name.toList).getD []

def connectionUpgrades (connection : Str) : Bool :=
  (connection.splitOn ',').any fun item => eqIgnoreAsciiCase (trim item) "upgrade"

def isWebsocketUpgrade (request : Request) : Bool :=
  eqIgnoreAsciiCase (request.text "upgrade") "websocket" &&
    connectionUpgrades (request.text "connection")

def detectProtocol (config : ProtocolConfig) (request : Request) : ProtocolType :=
  -- `application/grpc` is a prefix of the types of gRPC-Web too
  if config.grpcEnabled &&
      (HeaderMap.text request.headers "content-type").any fun contentType =>
        (stripStart "application/grpc" (contentType.map Char.toLower)).isSome then .grpc
  else if config.websocketEnable && isWebsocketUpgrade request then .webSocket
  else if config.sseEnable &&
      (HeaderMap.text request.headers "accept").any (strContains "text/event-stream") then .sse
  else .http

def validateWebsocket (request : Request) : Except String Unit :=
  if request.method ≠ "GET" then .error "WebSocket requires GET method"
  else if !eqIgnoreAsciiCase (request.text "upgrade") "websocket" then
    .error "missing or invalid Upgrade header"
  else if !connectionUpgrades (request.text "connection") then
    .error "Connection header must contain 'upgrade'"
  else if (HeaderMap.get request.headers "sec-websocket-key").isNone then
    .error "missing Sec-WebSocket-Key"
  else if request.text "sec-websocket-version" ≠ "13" then
    .error "Sec-WebSocket-Version must be 13"
  else .ok ()

/-- The service of `/package.Service/Method`. -/
def checkGrpcServiceWhitelist (path : Str) (whitelist : List Str) : Bool :=
  whitelist.isEmpty ||
    whitelist.contains (((stripStart "/" path).map fun p => p.takeWhile (· ≠ '/')).getD [])

/-- The request goes on; otherwise it has been answered 400 or 403. -/
def ProtocolConfig.admits (config : ProtocolConfig) (path : Str) (request : Request) : Bool :=
  match detectProtocol config request with
  | .webSocket => (validateWebsocket request).isOk
  | .grpc => checkGrpcServiceWhitelist path config.grpcServices
  | _ => true

/-! ## Runs behind protocol detection -/

def Traffic.detected (traffic : Traffic) (config : ProtocolConfig) : Traffic where
  exchange := fun i =>
    let x := traffic.exchange i
    { x with request := { x.request with protocolType := detectProtocol config x.request } }
  revalidated := traffic.revalidated

/-- A request that is answered by protocol detection does not arrive at the cache. -/
def ProtocolConfig.passes (config : ProtocolConfig) (path : Str) (traffic : Traffic) :
    ProxyEvent → Bool
  | .arrive i => config.admits path (traffic.exchange i).request
  | _ => true

namespace CdnProxy

variable (proxy : CdnProxy)

def runDetected (config : ProtocolConfig) (traffic : Traffic) (events : List ProxyEvent)
    (sys : ProxySystem) : ProxySystem :=
  proxy.run (traffic.detected config) (events.filter (config.passes proxy.path traffic)) sys

variable (traffic : Traffic) (P : Request → Prop) {ctx : ProxyCtx}

theorem key_of_cacheBody {now : Clock} {data : Option Bytes} {endOfStream : Bool}
    (h : (proxy.cacheBody now data endOfStream ctx).1.cacheKey.isSome) : ctx.cacheKey.isSome := by
  unfold cacheBody at h
  split at h
  next hkept => exact hkept.2
  next => exact h

/-- Everything that the cache has to do with is of requests with `P`, or of a revalidation. -/
structure Kept (sys : ProxySystem) : Prop where
  flights : ∀ i ctx, (sys.flights i).ctx = some ctx → ctx.cacheKey.isSome →
    P (traffic.exchange i).request
  puts : ∀ s ∈ sys.puts, P s.2.request ∨ s.2.request = proxy.revalidationRequest
  sources : ∀ x ∈ sys.sources, P x.request ∨ x.request = proxy.revalidationRequest
  answers : ∀ a ∈ sys.answers, P a.request

variable {proxy traffic P} {sys : ProxySystem}

namespace Kept

theorem set (h : proxy.Kept traffic P sys) {i : Nat} {f : Flight}
    (hf : ∀ ctx, f.ctx = some ctx → ctx.cacheKey.isSome → P (traffic.exchange i).request) :
    proxy.Kept traffic P (sys.set i f) where
  flights := by
    intro j ctx hctx
    have hflight : (Function.update sys.flights i f j).ctx = some ctx := hctx
    by_cases hj : j = i
    · rw [hj, Function.update_self] at hflight
      rw [hj]
      exact hf ctx hflight
    · rw [Function.update_of_ne hj] at hflight
      exact h.flights j ctx hflight
  puts := h.puts
  sources := h.sources
  answers := h.answers

theorem set_over (h : proxy.Kept traffic P sys) (i : Nat) :
    proxy.Kept traffic P (sys.set i .over) :=
  h.set fun _ hctx => by cases hctx

theorem ctx_wake (key : Str) (f : Flight) : (f.wake key).ctx = f.ctx := by
  cases f with
  | waiting ctx =>
    show Flight.ctx (if ctx.cacheKey = some key then .woken ctx else .waiting ctx) = some ctx
    split <;> rfl
  | _ => rfl

section

variable (h : proxy.Kept traffic P sys)
include h

theorem release (key : Option Str) : proxy.Kept traffic P (sys.release key) := by
  cases key with
  | none => exact h
  | some key =>
    refine ⟨fun i ctx hctx => h.flights i ctx ?_, h.puts, h.sources, h.answers⟩
    exact (ctx_wake key (sys.flights i)).symm.trans hctx

theorem looked (key : Str) : proxy.Kept traffic P (proxy.looked sys key) :=
  ⟨h.flights, h.puts, h.sources, h.answers⟩

theorem serve {request : Request} (hrequest : P request) (i : Nat) (key : Str)
    (status : CacheStatus) (cached : CachedResponse) :
    proxy.Kept traffic P (proxy.serve sys i request key status cached) := by
  have hset := (h.looked key).set_over i
  refine ⟨hset.flights, hset.puts, hset.sources, fun a ha => ?_⟩
  rcases mem_cons.1 ha with rfl | ha
  · exact hrequest
  · exact h.answers a ha

theorem arrive {i : Nat}
    (hP : proxy.Accepts (traffic.exchange i).request → P (traffic.exchange i).request) :
    proxy.Kept traffic P (proxy.arrive sys i (traffic.exchange i).request) := by
  unfold CdnProxy.arrive
  split
  next => exact h.set_over i
  next d hd =>
    split
    next hcacheable =>
      have hrequest := hP (requestAccepted_of_cacheable hd hcacheable)
      have hlooked := h.looked (proxy.cacheKey (traffic.exchange i).request)
      unfold cacheLookup
      dsimp only
      split
      next => exact hlooked.set_over i
      next => exact h.serve hrequest ..
      next cached _ =>
        have hserve := h.serve hrequest i
          (proxy.cacheKey (traffic.exchange i).request) .stale cached
        exact ⟨hserve.flights, hserve.puts, hserve.sources, hserve.answers⟩
      split
      · exact hlooked.set fun _ _ _ => hrequest
      have hset := hlooked.set
        (f := .forwarded { proxy.missed (traffic.exchange i).request d.ttl with
        isCoalescingLeader := true }) fun _ _ _ => hrequest
      exact ⟨hset.flights, hset.puts, hset.sources, hset.answers⟩
    next =>
      refine h.set fun ctx hctx hkey => ?_
      cases hctx
      cases hkey

theorem resume {i : Nat} (hflight : sys.flights i = .woken ctx) :
    proxy.Kept traffic P (proxy.resume sys i (traffic.exchange i).request ctx) := by
  have hctx : ctx.cacheKey.isSome → P (traffic.exchange i).request :=
    h.flights i ctx (by rw [hflight]; rfl)
  unfold CdnProxy.resume
  split
  next => exact h
  next key hkey =>
    have hrequest := hctx (Option.isSome_of_eq_some hkey)
    split
    · exact (h.looked key).set_over i
    · exact h.serve hrequest ..
    · exact (h.looked key).set fun _ _ _ => hrequest

theorem receive {i : Nat} {data : Option Bytes}
    {left : List (Option Bytes)} (hflight : sys.flights i = .receiving ctx (data :: left)) :
    proxy.Kept traffic P (proxy.receive sys i (traffic.exchange i) ctx data left) := by
  have hctx : ctx.cacheKey.isSome → P (traffic.exchange i).request :=
    h.flights i ctx (by rw [hflight]; rfl)
  refine release ?_ _
  have hset : proxy.Kept traffic P (sys.set i (.receiving (if left.isEmpty = true then
      releaseLeader (proxy.cacheBody sys.clock data left.isEmpty ctx).1
      else ((proxy.cacheBody sys.clock data left.isEmpty ctx).1, none)).1 left)) := by
    refine h.set fun c hc hkey => ?_
    cases hc
    split at hkey
    · rw [releaseLeader_fst] at hkey
      exact hctx (key_of_cacheBody proxy hkey)
    · exact hctx (key_of_cacheBody proxy hkey)
  refine ⟨hset.flights, fun s hs => ?_, h.sources, h.answers⟩
  rcases mem_append.1 hs with hs | hs
  · obtain ⟨w, hw, rfl⟩ := mem_map.1 hs
    obtain ⟨before, -, hkey, -⟩ := proxy.of_cacheBody (.inr ⟨w, Option.mem_toList.1 hw, rfl, rfl⟩)
    exact .inl (hctx hkey)
  · exact h.puts s hs

theorem put (n : Nat) : proxy.Kept traffic P (proxy.put sys n) := by
  unfold CdnProxy.put
  split
  next s hs =>
    refine ⟨h.flights, fun s' hs' => h.puts s' (mem_of_mem_eraseIdx hs'), fun x hx => ?_, h.answers⟩
    rcases mem_cons.1 hx with rfl | hx
    · exact h.puts s (mem_of_getElem? hs)
    · exact h.sources x hx
  next => exact h

theorem revalidate (n : Nat) (response : OriginResponse) :
    proxy.Kept traffic P (proxy.revalidate sys n response) := by
  unfold CdnProxy.revalidate
  split
  · refine ⟨h.flights, fun s hs => ?_, h.sources, h.answers⟩
    rcases mem_cons.1 hs with rfl | hs
    · exact .inr rfl
    · exact h.puts s hs
  · exact h

theorem upkeep (e : CacheEvent) : proxy.Kept traffic P (proxy.upkeep sys e) := by
  cases e with
  | put w => exact h
  | _ => exact ⟨h.flights, h.puts, h.sources, h.answers⟩

theorem step {e : ProxyEvent}
    (hP : ∀ i, e = .arrive i → proxy.Accepts (traffic.exchange i).request →
      P (traffic.exchange i).request) :
    proxy.Kept traffic P (proxy.step traffic sys e) := by
  unfold CdnProxy.step
  cases e with
  | arrive i =>
    dsimp only
    split
    · exact h.arrive (hP i rfl)
    · exact h
  | resume i =>
    dsimp only
    split
    next ctx hflight => exact h.resume hflight
    next => exact h
  | timeout i =>
    dsimp only
    split
    next ctx hflight =>
      refine h.set fun c hc => h.flights i c ?_
      rw [hflight]
      exact hc
    next => exact h
  | header i =>
    dsimp only
    split
    next ctx hflight =>
      refine h.set fun c hc hkey => ?_
      cases hc
      refine h.flights i ctx (by rw [hflight]; rfl) ?_
      -- a key that the filter leaves was there before
      unfold responseFilter at hkey
      split at hkey
      next hmiss => exact hmiss.1
      next => exact hkey
    next => exact h
  | body i =>
    dsimp only
    split
    next ctx data left hflight => exact h.receive hflight
    next => exact h
  | finish i =>
    dsimp only
    split
    · exact (h.set_over i).release _
    · exact h
  | put n => exact h.put n
  | revalidate n k => exact h.revalidate n _
  | upkeep e => exact h.upkeep e

end

end Kept

end CdnProxy

/-- No answer from the cache and no write, spawned or carried out, is of a request that protocol
detection takes for another protocol than HTTP. -/
structure ProxySystem.Bypassed (config : ProtocolConfig) (sys : ProxySystem) : Prop where
  answers : ∀ a ∈ sys.answers, detectProtocol config a.request = .http
  puts : ∀ s ∈ sys.puts, detectProtocol config s.2.request = .http
  sources : ∀ x ∈ sys.sources, detectProtocol config x.request = .http

theorem detectProtocol_revalidationRequest (config : ProtocolConfig) (proxy : CdnProxy) :
    detectProtocol config proxy.revalidationRequest = .http := by
  have htype : HeaderMap.text proxy.revalidationRequest.headers "content-type".toList = none := rfl
  have hupgrade : isWebsocketUpgrade proxy.revalidationRequest = false := rfl
  have haccept : HeaderMap.text proxy.revalidationRequest.headers "accept".toList
      = some "*/*".toList := rfl
  have hevents : strContains "text/event-stream".toList "*/*".toList = false := by decide
  simp only [detectProtocol, htype, hupgrade, haccept, Option.any_none, Option.any_some, hevents,
    Bool.and_false, Bool.false_eq_true, if_false]

/-- **Bypass.** In every run in which each request of another protocol is answered by protocol
detection, or fails the check of requests (caching is off, the method is neither `GET` nor `HEAD`,
`Cache-Control` or `Authorization` forbid it, or its time to live is zero), none of them is answered
from the cache or stored. -/
theorem bypass_of_refused (proxy : CdnProxy) (config : ProtocolConfig)
    (traffic : Traffic) (clock : Clock) (events : List ProxyEvent)
    (hrefused : ∀ i, detectProtocol config (traffic.exchange i).request ≠ .http →
      config.admits proxy.path (traffic.exchange i).request = true →
      ¬ proxy.Accepts (traffic.exchange i).request) :
    (proxy.runDetected config traffic events (.empty clock)).Bypassed config := by
  have hkept : proxy.Kept (traffic.detected config) (fun r => detectProtocol config r = .http)
      (proxy.runDetected config traffic events (.empty clock)) := by
    refine List.foldlRecOn _ _ ⟨fun _ _ h => (by cases h), nofun, nofun, nofun⟩ fun _ h e he =>
      h.step fun i hi haccepts => ?_
    subst hi
    have hadmits : config.admits proxy.path (traffic.exchange i).request = true :=
      (mem_filter.1 he).2
    by_contra hother
    exact hrefused i hother hadmits haccepts
  have hplain : ∀ r : Request, detectProtocol config r = .http ∨ r = proxy.revalidationRequest →
      detectProtocol config r = .http := by
    rintro r (h | rfl)
    · exact h
    · exact detectProtocol_revalidationRequest config proxy
  exact ⟨hkept.answers, fun s hs => hplain _ (hkept.puts s hs), fun x hx =>
    hplain _ (hkept.sources x hx)⟩

def eventConfig : ProtocolConfig := { sseEnable := true }

def eventRequest : Request :=
  { method := "GET", headers := [("accept", strBytes "text/event-stream")] }

def uncachedEventRequest : Request :=
  { eventRequest with
    headers := ("cache-control", strBytes "no-cache") :: eventRequest.headers }

/-- Requests with `no-cache` are bypassed. -/
theorem bypass_of_refused_events :
    detectProtocol eventConfig uncachedEventRequest = .sse ∧
      ¬ plainSite.Accepts uncachedEventRequest ∧
      (plainSite.runDetected eventConfig ⟨fun _ => ⟨uncachedEventRequest, wholePage⟩,
        fun _ => wholePage⟩
        storedThenRead (.empty ⟨0, by decide⟩)).Bypassed eventConfig := by
  have hrefused : ¬ plainSite.Accepts uncachedEventRequest := fun haccepts =>
    (haccepts.cacheControl "no-cache" (by decide)).1 (by decide)
  exact ⟨by decide, hrefused, bypass_of_refused _ _ _ _ _ fun _ _ _ => hrefused⟩

/-- The first stream of events goes to the origin and is stored, the second request is answered
with it. -/
theorem bypass_fails :
    detectProtocol eventConfig eventRequest = .sse ∧
      (∃ a ∈ (plainSite.runDetected eventConfig ⟨fun _ => ⟨eventRequest, wholePage⟩,
        fun _ => wholePage⟩
        storedThenRead (.empty ⟨0, by decide⟩)).answers,
          detectProtocol eventConfig a.request = .sse) ∧
      ∃ x ∈ (plainSite.runDetected eventConfig ⟨fun _ => ⟨eventRequest, wholePage⟩,
        fun _ => wholePage⟩
        storedThenRead (.empty ⟨0, by decide⟩)).sources,
          detectProtocol eventConfig x.request = .sse := by
  decide +kernel

end Nozdormu.Proxy
