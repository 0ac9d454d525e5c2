import Nozdormu.Data.Checksum
import Nozdormu.Proxy.CacheRuns

/-!
# Complete answers from the cache

Nothing in the filters tells the answer to a `HEAD`, a part or a `304` from a whole answer:
whichever comes to the end of its body is stored as the entry of the URL and served to the next
plain `GET` (`completeAnswers_part_fails`). A run is safe if all of them are refused for other
reasons (`completeAnswers_of_refused`).
-/

namespace Nozdormu.Proxy

open Rust Data Bmff Cache List

/-! ## Lists side by side -/

theorem find?_zip {α β : Type} {R : α → β → Prop} {q : α → Bool} {l : List α} {l' : List β} {a : α}
    (h : List.Forall₂ R l l') (ha : l.find? q = some a) :
    ∃ b, ((l.zip l').find? fun s => q s.1).map (·.2) = some b ∧ R a b := by
  induction h with
  | nil => cases ha
  | @cons a' b l l' hb _ ih =>
    rw [zip_cons_cons]
    by_cases hq : q a'
    · rw [List.find?_cons_of_pos hq] at ha
      cases ha
      rw [List.find?_cons_of_pos (by exact hq)]
      exact ⟨b, rfl, hb⟩
    · rw [List.find?_cons_of_neg hq] at ha
      rw [List.find?_cons_of_neg (by exact hq)]
      exact ih ha

variable {i : Nat} {x : Exchange}

namespace CdnProxy

variable (proxy : CdnProxy) (traffic : Traffic)

/-! ## Where stored bodies come from -/

/-- The request passes its check. -/
def Accepts (request : Request) : Prop :=
  RequestAccepted proxy.profile proxy.compile request.method proxy.path
    (HeaderMap.text request.headers "cache-control")
    (HeaderMap.get request.headers "authorization").isSome proxy.site.cache

/-- Request and response pass their checks. -/
def Admits (x : Exchange) : Prop :=
  proxy.Accepts x.request ∧ x.response.status ∈ cacheableStatuses ∧
    ¬ (marksOf x.response.headers).Refuse proxy.site.cache

/-- The exchanges that can be stored. -/
def Behind (x : Exchange) : Prop :=
  (∃ i, x = traffic.exchange i ∧ proxy.Admits x) ∨
    ∃ k, x = ⟨proxy.revalidationRequest, traffic.revalidated k⟩

structure Stores (w : Write) (x : Exchange) : Prop where
  behind : proxy.Behind traffic x
  status : w.status = x.response.status
  body : w.body = x.response.content

/-- A context before the header of the response. -/
structure Asked (x : Exchange) (ctx : ProxyCtx) : Prop where
  noCopy : ctx.responseBody = none
  accepts : ctx.cacheKey.isSome → proxy.Accepts x.request

/-- The copy of a body of which `left` is to come. -/
structure Copies (x : Exchange) (left : List (Option Bytes)) (copy : Bytes) (status : UInt16) :
    Prop where
  admits : proxy.Admits x
  copied : ∃ done, x.response.body = done ++ left ∧ copy = bytesOf done
  status : status = x.response.status

def InPhase (x : Exchange) : Flight → Prop
  | .idle => True
  | .waiting ctx => proxy.Asked x ctx
  | .woken ctx => proxy.Asked x ctx
  | .forwarded ctx => proxy.Asked x ctx
  | .receiving ctx left => ∀ buffers, ctx.responseBody = some buffers → ctx.cacheKey.isSome →
      proxy.Copies x left buffers.flatten ctx.cachedResponseStatus
  | .over => True

structure FromCache (a : Answer) : Prop where
  body : ∃ x, a.source = some x ∧ proxy.Behind traffic x ∧ a.response.body = x.response.content
  status : a.response.status = 200 ∨ ∃ x, proxy.Behind traffic x ∧
    a.response.status = x.response.status

structure Inv (sys : ProxySystem) : Prop where
  flights : ∀ i, proxy.InPhase (traffic.exchange i) (sys.flights i)
  puts : ∀ s ∈ sys.puts, proxy.Stores traffic s.1 s.2
  sources : List.Forall₂ (proxy.Stores traffic) sys.cache.writes sys.sources
  written : sys.cache.Written
  answers : ∀ a ∈ sys.answers, proxy.FromCache traffic a

variable {proxy traffic}

theorem Copies.next {data : Option Bytes} {left : List (Option Bytes)} {copy : Bytes}
    {status : UInt16} (h : proxy.Copies x (data :: left) copy status) :
    proxy.Copies x left (copy ++ data.getD []) status := by
  obtain ⟨done, hbody, hcopy⟩ := h.copied
  refine ⟨h.admits, ⟨done ++ [data], ?_, ?_⟩, h.status⟩
  · rw [hbody, append_assoc, singleton_append]
  · rw [hcopy, bytesOf, bytesOf, flatMap_append, flatMap_singleton]

theorem Copies.stores {copy : Bytes} {status : UInt16} {w : Write}
    (h : proxy.Copies (traffic.exchange i) [] copy status) (hbody : w.body = copy)
    (hstatus : w.status = status) : proxy.Stores traffic w (traffic.exchange i) := by
  obtain ⟨done, hdone, hcopy⟩ := h.copied
  rw [append_nil] at hdone
  refine ⟨.inl ⟨i, rfl, h.admits⟩, hstatus.trans h.status, ?_⟩
  rw [hbody, hcopy, OriginResponse.content, hdone]

theorem inv_empty (proxy : CdnProxy) (traffic : Traffic) (clock : Clock) :
    proxy.Inv traffic (.empty clock) where
  flights := fun _ => trivial
  puts := nofun
  sources := .nil
  written := CacheSystem.written_empty clock
  answers := nofun

namespace Inv

variable {sys : ProxySystem}

section

variable (h : proxy.Inv traffic sys)
include h

theorem set {f : Flight}
    (hf : proxy.InPhase (traffic.exchange i) f) : proxy.Inv traffic (sys.set i f) where
  flights := by
    intro j
    show proxy.InPhase _ (Function.update sys.flights i f j)
    by_cases hj : j = i
    · rw [hj, Function.update_self]
      exact hf
    · rw [Function.update_of_ne hj]
      exact h.flights j
  puts := h.puts
  sources := h.sources
  written := h.written
  answers := h.answers

theorem release (key : Option Str) : proxy.Inv traffic (sys.release key) := by
  cases key with
  | none => exact h
  | some key =>
    refine ⟨fun j => ?_, h.puts, h.sources, h.written, h.answers⟩
    have hj := h.flights j
    show proxy.InPhase _ ((sys.flights j).wake key)
    cases hflight : sys.flights j with
    | waiting ctx =>
      rw [hflight] at hj
      show proxy.InPhase _ (if ctx.cacheKey = some key then .woken ctx else .waiting ctx)
      split <;> exact hj
    | _ => rw [hflight] at hj; exact hj

theorem fading {e : CacheEvent} (he : ∀ w, e ≠ .put w) :
    proxy.Inv traffic { sys with cache := sys.cache.step proxy.profile e } := by
  obtain ⟨s, hstep, hfades⟩ := CacheSystem.fades_step he sys.cache
  refine ⟨h.flights, h.puts, ?_, ?_, h.answers⟩
  · rw [hstep]
    exact h.sources
  · rw [hstep]
    exact h.written.fades hfades

theorem looked (key : Str) : proxy.Inv traffic (proxy.looked sys key) :=
  h.fading nofun

theorem fromCache_of_lookup {key : Str} {cached : CachedResponse}
    {stale : Bool} (hfound : proxy.lookup sys key = .ok (some (cached, stale))) (request : Request)
    (status : CacheStatus) :
    proxy.FromCache traffic
      ⟨request, serveCachedResponse sys.clock request status cached, proxy.source sys key⟩ := by
  obtain ⟨path, hpath⟩ := path_of_getWithStale hfound
  obtain ⟨hbody, -, hmeta⟩ := of_getWithStale hpath hfound
  obtain ⟨w, hw, hwbody⟩ := h.written.body hbody
  obtain ⟨x, hx, hstores⟩ := find?_zip h.sources hw
  refine ⟨⟨x, ?_, hstores.behind, hwbody.symm.trans hstores.body⟩, ?_⟩
  · rw [source, hpath]
    exact hx
  show cached.metadata.status = 200 ∨ ∃ x, proxy.Behind traffic x ∧ cached.metadata.status = _
  rcases hmeta with hmeta | ⟨-, hinvented⟩
  · obtain ⟨deadline, hentry, -⟩ := lookup_of_metaOf hmeta
    obtain ⟨w', hw', hmetadata⟩ := h.written.record (not_isTagKey_metaKey _ _) hentry
    obtain ⟨x', -, hx'⟩ := exists_of_mem_left h.sources hw'
    exact .inr ⟨x', hx'.behind, by rw [← hmetadata]; exact hx'.status⟩
  · exact .inl (by rw [hinvented]; rfl)

theorem serve {key : Str} {cached : CachedResponse} {stale : Bool}
    (hfound : proxy.lookup sys key = .ok (some (cached, stale))) (i : Nat) (request : Request)
    (status : CacheStatus) : proxy.Inv traffic (proxy.serve sys i request key status cached) := by
  have hset : proxy.Inv traffic ((proxy.looked sys key).set i .over) := (h.looked key).set trivial
  refine ⟨hset.flights, hset.puts, hset.sources, hset.written, fun a ha => ?_⟩
  rcases mem_cons.1 ha with rfl | ha
  · exact h.fromCache_of_lookup hfound request status
  · exact h.answers a ha

theorem cacheLookup (haccepts : proxy.Accepts (traffic.exchange i).request) (ttl : UInt64) :
    proxy.Inv traffic (proxy.cacheLookup sys i (traffic.exchange i).request ttl) := by
  have hlooked := h.looked (proxy.cacheKey (traffic.exchange i).request)
  unfold CdnProxy.cacheLookup
  dsimp only
  split
  next => exact hlooked.set trivial
  next cached hfound => exact h.serve hfound ..
  next cached hfound =>
    have hserve := h.serve hfound i (traffic.exchange i).request .stale
    exact ⟨hserve.flights, hserve.puts, hserve.sources, hserve.written, hserve.answers⟩
  split
  · exact hlooked.set ⟨rfl, fun _ => haccepts⟩
  have hset := hlooked.set (f := .forwarded
    { proxy.missed (traffic.exchange i).request ttl with isCoalescingLeader := true })
    ⟨rfl, fun _ => haccepts⟩
  exact ⟨hset.flights, hset.puts, hset.sources, hset.written, hset.answers⟩

theorem arrive (i : Nat) : proxy.Inv traffic (proxy.arrive sys i (traffic.exchange i).request) := by
  unfold CdnProxy.arrive
  split
  next => exact h.set trivial
  next d hd =>
    split
    next hcacheable => exact h.cacheLookup (requestAccepted_of_cacheable hd hcacheable) d.ttl
    next => exact h.set ⟨rfl, nofun⟩

theorem resume {ctx : ProxyCtx} (hctx : proxy.Asked (traffic.exchange i) ctx) :
    proxy.Inv traffic (proxy.resume sys i (traffic.exchange i).request ctx) := by
  unfold CdnProxy.resume
  split
  next => exact h
  next key _ =>
    split
    next => exact (h.looked key).set trivial
    next hfound => exact h.serve hfound ..
    next => exact (h.looked key).set hctx

/-- With the header, a copy is begun only for an exchange that passes both checks. -/
theorem header {ctx : ProxyCtx} (hctx : proxy.Asked (traffic.exchange i) ctx) :
    proxy.Inv traffic (sys.set i (.receiving (proxy.responseFilter sys.clock
      (traffic.exchange i).request (traffic.exchange i).response ctx)
      (traffic.exchange i).response.body)) := by
  refine h.set fun buffers hbuffers _ => ?_
  unfold responseFilter at hbuffers ⊢
  dsimp only at hbuffers ⊢
  split at hbuffers
  next hmiss =>
    rw [if_pos hmiss]
    split at hbuffers
    next hpass =>
      rw [if_pos hpass]
      rw [checkResponseCacheability_iff, marksOf_stampHeaders] at hpass
      cases hbuffers
      exact ⟨⟨hctx.accepts hmiss.1, hpass⟩, ⟨[], rfl, rfl⟩, rfl⟩
    next => rw [hctx.noCopy] at hbuffers; cases hbuffers
  next => rw [hctx.noCopy] at hbuffers; cases hbuffers

theorem receive {ctx : ProxyCtx} {data : Option Bytes} {left : List (Option Bytes)}
    (hctx : proxy.InPhase (traffic.exchange i) (.receiving ctx (data :: left))) :
    proxy.Inv traffic (proxy.receive sys i (traffic.exchange i) ctx data left) := by
  have hnext : ∀ {body : Bytes} {status : UInt16}, (∃ before, ctx.responseBody = some before ∧
      ctx.cacheKey.isSome ∧ body = before.flatten ++ data.getD [] ∧
        status = ctx.cachedResponseStatus) →
      proxy.Copies (traffic.exchange i) left body status := by
    rintro body status ⟨before, hbefore, hkey, rfl, rfl⟩
    exact (hctx before hbefore hkey).next
  have hphase : ∀ {c : ProxyCtx}, c.responseBody =
      (proxy.cacheBody sys.clock data left.isEmpty ctx).1.responseBody →
      c.cacheKey = (proxy.cacheBody sys.clock data left.isEmpty ctx).1.cacheKey →
      c.cachedResponseStatus =
        (proxy.cacheBody sys.clock data left.isEmpty ctx).1.cachedResponseStatus →
      proxy.InPhase (traffic.exchange i) (.receiving c left) := by
    intro c hbody hkey hstatus buffers hbuffers hsome
    rw [hbody] at hbuffers
    rw [hkey] at hsome
    exact hnext (proxy.of_cacheBody (.inl ⟨buffers, hbuffers, hsome, rfl, hstatus⟩))
  have hputs : ∀ s ∈ ((proxy.cacheBody sys.clock data left.isEmpty ctx).2.toList.map fun w =>
      (w, traffic.exchange i)) ++ sys.puts, proxy.Stores traffic s.1 s.2 := by
    intro s hs
    rcases mem_append.1 hs with hs | hs
    · obtain ⟨w, hw, rfl⟩ := mem_map.1 hs
      have hw := Option.mem_toList.1 hw
      have hcopies := hnext (proxy.of_cacheBody (.inr ⟨w, hw, rfl, rfl⟩))
      -- only the call at the end of the stream writes
      cases left with
      | nil => exact hcopies.stores rfl rfl
      | cons next left =>
        unfold CdnProxy.cacheBody at hw
        split at hw <;> cases hw
    · exact h.puts s hs
  refine release ?_ _
  split
  · rw [releaseLeader_fst]
    have hset := h.set (hphase (c := { (proxy.cacheBody sys.clock data left.isEmpty ctx).1 with
      isCoalescingLeader := false }) rfl rfl rfl)
    exact ⟨hset.flights, hputs, hset.sources, hset.written, hset.answers⟩
  · have hset := h.set (hphase rfl rfl rfl)
    exact ⟨hset.flights, hputs, hset.sources, hset.written, hset.answers⟩

theorem put (n : Nat) : proxy.Inv traffic (proxy.put sys n) := by
  unfold CdnProxy.put
  split
  next s hs =>
    refine ⟨h.flights, fun s' hs' => h.puts s' (mem_of_mem_eraseIdx hs'), ?_,
      h.written.put proxy.profile s.1, h.answers⟩
    exact .cons (h.puts s (mem_of_getElem? hs)) h.sources
  next => exact h

theorem revalidate (n k : Nat) :
    proxy.Inv traffic (proxy.revalidate sys n (traffic.revalidated k)) := by
  unfold CdnProxy.revalidate
  split
  next key _ =>
    refine ⟨h.flights, fun s hs => ?_, h.sources, h.written, h.answers⟩
    rcases mem_cons.1 hs with rfl | hs
    · exact ⟨.inr ⟨k, rfl⟩, rfl, rfl⟩
    · exact h.puts s hs
  next => exact h

theorem upkeep (e : CacheEvent) : proxy.Inv traffic (proxy.upkeep sys e) := by
  cases e with
  | put w => exact h
  | _ => exact h.fading nofun

theorem step (e : ProxyEvent) : proxy.Inv traffic (proxy.step traffic sys e) := by
  unfold CdnProxy.step
  cases e with
  | arrive i =>
    dsimp only
    split
    · exact h.arrive i
    · exact h
  | resume i =>
    have hi := h.flights i
    dsimp only
    split
    next ctx hflight => rw [hflight] at hi; exact h.resume hi
    next => exact h
  | timeout i =>
    have hi := h.flights i
    dsimp only
    split
    next ctx hflight => rw [hflight] at hi; exact h.set hi
    next => exact h
  | header i =>
    have hi := h.flights i
    dsimp only
    split
    next ctx hflight => rw [hflight] at hi; exact h.header hi
    next => exact h
  | body i =>
    have hi := h.flights i
    dsimp only
    split
    next ctx data left hflight => rw [hflight] at hi; exact h.receive hi
    next => exact h
  | finish i =>
    dsimp only
    split
    next ctx _ =>
      have hover : proxy.Inv traffic (sys.set i .over) := h.set trivial
      exact hover.release _
    next => exact h
  | put n => exact h.put n
  | revalidate n k => exact h.revalidate n k
  | upkeep e => exact h.upkeep e

end

end Inv

/-- **Every run**: what is served comes from an exchange that passed both checks, or from a
revalidation. -/
theorem inv_run (events : List ProxyEvent) {sys : ProxySystem} (h : proxy.Inv traffic sys) :
    proxy.Inv traffic (proxy.run traffic events sys) := by
  exact List.foldlRecOn events _ h fun _ h e _ => h.step e

end CdnProxy

namespace Request

def has (r : Request) (name : String) : Bool := (HeaderMap.get r.headers name.toList).isSome

def conditional (r : Request) : Bool :=
  ["if-match", "if-none-match", "if-modified-since", "if-unmodified-since", "if-range"].any r.has

/-- A `GET` without `Range` and without conditions. -/
def Plain (r : Request) : Prop := r.method = "GET" ∧ r.has "range" = false ∧ r.conditional = false

instance (r : Request) : Decidable r.Plain := inferInstanceAs (Decidable (_ ∧ _))

end Request

namespace Exchange

/-- A part answers a `GET` that asked for one, a 304 answers a condition, and a `HEAD` has no
body. -/
def PerHttp (x : Exchange) : Prop :=
  (x.response.status = 206 → x.request.method = "GET" ∧ x.request.has "range" = true) ∧
    (x.response.status = 304 → x.request.conditional = true) ∧
    (x.request.method = "HEAD" → x.response.content = [])

instance (x : Exchange) : Decidable x.PerHttp := inferInstanceAs (Decidable (_ ∧ _))

/-- The answer to a `GET` that is no part and no 304. -/
def Complete (x : Exchange) : Prop :=
  x.request.method = "GET" ∧ x.response.status ≠ 206 ∧ x.response.status ≠ 304

theorem complete_of_plain (hhttp : x.PerHttp) (h : x.request.Plain) : x.Complete := by
  obtain ⟨hpart, hcondition, -⟩ := hhttp
  obtain ⟨hget, hrange, hconditional⟩ := h
  refine ⟨hget, fun hstatus => ?_, fun hstatus => ?_⟩
  · rw [(hpart hstatus).2] at hrange
    cases hrange
  · rw [hcondition hstatus] at hconditional
    cases hconditional

end Exchange

/-- A complete representation: neither a part nor a 304, with the whole body that the origin sent
for a `GET`. -/
def Answer.Complete (a : Answer) : Prop :=
  a.response.status ≠ 206 ∧ a.response.status ≠ 304 ∧
    ∃ x, a.source = some x ∧ x.Complete ∧ a.response.body = x.response.content

/-- The origin answers requests and revalidations as HTTP says. -/
structure Traffic.PerHttp (traffic : Traffic) (proxy : CdnProxy) : Prop where
  exchange : ∀ i, (traffic.exchange i).PerHttp
  revalidated : ∀ k, Exchange.PerHttp ⟨proxy.revalidationRequest, traffic.revalidated k⟩

/-- The cache stays away from an exchange because of the request, of the headers of the response,
or of the rules of the site. -/
def CdnProxy.Refuses (proxy : CdnProxy) (x : Exchange) : Prop :=
  ¬ proxy.Accepts x.request ∨ (marksOf x.response.headers).Refuse proxy.site.cache

theorem complete_of_behind {proxy : CdnProxy} {traffic : Traffic} (hhttp : traffic.PerHttp proxy)
    (hrefused : ∀ i, ¬ (traffic.exchange i).Complete → proxy.Refuses (traffic.exchange i))
    (h : proxy.Behind traffic x) : x.Complete := by
  rcases h with ⟨i, rfl, haccepts, -, hmarks⟩ | ⟨k, rfl⟩
  · by_contra hincomplete
    rcases hrefused i hincomplete with hrequest | hresponse
    · exact hrequest haccepts
    · exact hmarks hresponse
  · exact Exchange.complete_of_plain (hhttp.revalidated k) ⟨rfl, rfl, rfl⟩

/-- **Complete answers.** In every run in which each `HEAD` and each answer 206 or 304 is refused by
the headers of the request or of the response or by the rules of the site, a plain `GET` that is
answered from the cache receives a complete representation. -/
theorem completeAnswers_of_refused proxy (traffic : Traffic) clock
    events (hhttp : traffic.PerHttp proxy)
    (hrefused : ∀ i, ¬ (traffic.exchange i).Complete → proxy.Refuses (traffic.exchange i)) :
    ∀ a ∈ (proxy.run traffic events (.empty clock)).answers, a.request.Plain → a.Complete := by
  intro a ha _
  have hinv := CdnProxy.inv_run events (CdnProxy.inv_empty proxy traffic clock)
  obtain ⟨⟨x, hsource, hbehind, hbody⟩, hstatus⟩ := hinv.answers a ha
  have hwhole : a.response.status ≠ 206 ∧ a.response.status ≠ 304 := by
    rcases hstatus with hinvented | ⟨x', hbehind', hstatus⟩
    · rw [hinvented]
      exact ⟨by decide, by decide⟩
    · rw [hstatus]
      exact (complete_of_behind hhttp hrefused hbehind').2
  exact ⟨hwhole.1, hwhole.2, x, hsource, complete_of_behind hhttp hrefused hbehind, hbody⟩

def plainSite : CdnProxy where
  profile := .release
  md5 := fun text => hexEncode (polyHash 16 text)
  compile := fun _ => none
  parseDate := fun _ => none
  site := ⟨"site1", {}, true⟩
  host := "example.com"
  path := "/page"
  query := none

def plainGet : Request := { method := "GET", headers := [] }

def wholePage : OriginResponse := ⟨200, [], [some [104, 105, 33]]⟩

def firstByte : Exchange :=
  ⟨{ method := "GET", headers := [("range", strBytes "bytes=0-0")] },
    ⟨206, [("content-range", strBytes "bytes 0-0/3")], [some [104]]⟩⟩

def Traffic.startingWith (x : Exchange) : Traffic :=
  ⟨fun i => if i = 0 then x else ⟨plainGet, wholePage⟩, fun _ => wholePage⟩

/-- The first request goes to the origin and is stored, the second is answered. -/
def storedThenRead : List ProxyEvent := [.arrive 0, .header 0, .body 0, .put 0, .arrive 1]

theorem perHttp_startingWith (h : x.PerHttp) : (Traffic.startingWith x).PerHttp plainSite where
  exchange := by
    intro i
    show Exchange.PerHttp (if i = 0 then x else ⟨plainGet, wholePage⟩)
    split
    · exact h
    · decide
  revalidated := fun _ => by
    show Exchange.PerHttp ⟨plainSite.revalidationRequest, wholePage⟩
    decide

def unstoredByte : Exchange :=
  { firstByte with response :=
    { firstByte.response with headers := [("cache-control", strBytes "no-store")] } }

/-- The first answer is refused. -/
def refusedThenRead : List ProxyEvent :=
  [.arrive 0, .header 0, .body 0, .finish 0, .arrive 1, .timeout 1, .header 1, .body 1,
    .put 0, .arrive 2]

theorem completeAnswers_of_refused_page :
    (Traffic.startingWith unstoredByte).PerHttp plainSite ∧ plainSite.Refuses unstoredByte ∧
      ((plainSite.run (.startingWith unstoredByte) refusedThenRead
        (.empty ⟨0, by decide⟩)).answers.map
        fun a => (a.request, a.response.status, a.response.body)) =
          [(plainGet, 200, [104, 105, 33])] ∧
      ∀ a ∈ (plainSite.run (.startingWith unstoredByte) refusedThenRead
        (.empty ⟨0, by decide⟩)).answers, a.request.Plain → a.Complete := by
  have hhttp := perHttp_startingWith (x := unstoredByte) (by decide)
  have hrefuses : plainSite.Refuses unstoredByte :=
    .inr (.inl ⟨"no-store", by decide, .inr (.inr (by decide))⟩)
  refine ⟨hhttp, hrefuses, by decide +kernel, ?_⟩
  refine completeAnswers_of_refused _ _ _ _ hhttp fun i => ?_
  show ¬ Exchange.Complete (if i = 0 then unstoredByte else ⟨plainGet, wholePage⟩) →
    plainSite.Refuses (if i = 0 then unstoredByte else ⟨plainGet, wholePage⟩)
  split
  · exact fun _ => hrefuses
  · exact fun hincomplete => absurd ⟨rfl, by decide, by decide⟩ hincomplete

/-- After a `GET` with `Range`, a plain `GET` receives the part. -/
theorem completeAnswers_part_fails : (Traffic.startingWith firstByte).PerHttp plainSite ∧
      ∃ a ∈ (plainSite.run (.startingWith firstByte) storedThenRead
        (.empty ⟨0, by decide⟩)).answers,
        a.request.Plain ∧ a.response.status = 206 ∧ a.response.body = [104] ∧ ¬ a.Complete := by
  have hanswer : (plainSite.run (.startingWith firstByte) storedThenRead
      (.empty ⟨0, by decide⟩)).answers.any (fun a =>
        a.request.Plain ∧ a.response.status = 206 ∧ a.response.body = [104]) = true :=
          by decide +kernel
  obtain ⟨a, ha, hcheck⟩ := any_eq_true.1 hanswer
  obtain ⟨hplain, hstatus, hbody⟩ := of_decide_eq_true hcheck
  exact ⟨perHttp_startingWith (by decide), a, ha, hplain, hstatus, hbody, fun hcomplete =>
    hcomplete.1 hstatus⟩

end Nozdormu.Proxy
