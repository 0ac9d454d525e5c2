import Nozdormu.Cache.Freshness
import Nozdormu.Proxy.CacheFilters

/-!
# Requests for one URL

Any number of requests, each in its own phase: looking into the cache, waiting behind a leader, at
the origin, receiving a body. Writes and revalidations run in tasks of their own, and time passes
in between. What clients ask and what the origin answers is fixed for a run by its `Traffic`; the
events say in which order things happen.
-/

namespace Nozdormu.Proxy

open Rust Bmff Cache

/-- A request with the answer of the origin, should it be asked. -/
structure Exchange where
  request : Request
  response : OriginResponse
deriving DecidableEq, Repr

/-- The requests of a run, and the answers that revalidations get. -/
structure Traffic where
  exchange : Nat → Exchange
  revalidated : Nat → OriginResponse

inductive Flight where
  | idle
  /-- behind the leader of its key -/
  | waiting (ctx : ProxyCtx)
  /-- the leader is done, the cache is to be asked again -/
  | woken (ctx : ProxyCtx)
  /-- at the origin -/
  | forwarded (ctx : ProxyCtx)
  /-- the header has come, `left` are the calls for the body that are to come -/
  | receiving (ctx : ProxyCtx) (left : List (Option Bytes))
  | over
deriving DecidableEq, Repr

namespace Flight

def ctx : Flight → Option ProxyCtx
  | waiting ctx => some ctx
  | woken ctx => some ctx
  | forwarded ctx => some ctx
  | receiving ctx _ => some ctx
  | _ => none

/-- `notify_waiters` of the entry of a key. -/
def wake (key : Str) : Flight → Flight
  | waiting ctx => if ctx.cacheKey = some key then woken ctx else waiting ctx
  | f => f

end Flight

/-- An answer from the cache, with the exchange that the body came from. -/
structure Answer where
  request : Request
  response : ClientResponse
  source : Option Exchange
deriving DecidableEq, Repr

structure ProxySystem where
  cache : CacheSystem
  flights : Nat → Flight
  /-- The keys of the coalescing map. -/
  coalescing : List Str
  /-- Writes that have been spawned, with the exchange each is of. -/
  puts : List (Write × Exchange)
  /-- Keys whose revalidation has been spawned. -/
  revalidations : List Str
  /-- The exchange behind each of `cache.writes`. -/
  sources : List Exchange
  answers : List Answer

namespace ProxySystem

def empty (clock : Clock) : ProxySystem := ⟨.empty clock, fun _ => .idle, [], [], [], [], []⟩

variable (sys : ProxySystem)

def set (i : Nat) (f : Flight) : ProxySystem :=
  { sys with flights := Function.update sys.flights i f }

def clock (sys : ProxySystem) : Clock := sys.cache.stores.clock

/-- The exchange behind the body at a path. -/
def sourceAt (path : Str) : Option Exchange :=
  ((sys.cache.writes.zip sys.sources).find? fun s => s.1.path = .ok path).map (·.2)

def release : Option Str → ProxySystem
  | some key =>
    { sys with
      coalescing := sys.coalescing.erase key
      flights := fun j => (sys.flights j).wake key }
  | none => sys

end ProxySystem

inductive ProxyEvent where
  /-- `request_filter` up to the point where it answers, waits or lets go -/
  | arrive (i : Nat)
  /-- a follower that was woken -/
  | resume (i : Nat)
  /-- the 30 s of a follower are over -/
  | timeout (i : Nat)
  /-- `response_filter` -/
  | header (i : Nat)
  /-- one call of `response_body_filter` -/
  | body (i : Nat)
  /-- `logging`, also of a request that failed or whose client is gone -/
  | finish (i : Nat)
  /-- a spawned write is carried out -/
  | put (n : Nat)
  /-- a spawned revalidation has its answer -/
  | revalidate (n k : Nat)
  /-- time passes, entries are purged -/
  | upkeep (e : CacheEvent)

namespace CdnProxy

variable (self : CdnProxy) (traffic : Traffic)

variable (sys : ProxySystem)

def lookup (key : Str) : Except Fault (Option (CachedResponse × Bool)) :=
  ((CacheStorage.full.getWithStale self.profile self.site.siteId key).run Stores.serve
    sys.cache.stores).1

def looked (key : Str) : ProxySystem :=
  { sys with cache := sys.cache.step self.profile (.getWithStale self.site.siteId key) }

def source (key : Str) : Option Exchange :=
  match (cacheObjectPath self.site.siteId key : Exec Empty Str) with
  | .ok path => sys.sourceAt path
  | .error _ => none

variable (i : Nat) (request : Request)

/-- A request is answered with what the lookup has found. -/
def serve (key : Str) (status : CacheStatus) (cached : CachedResponse) : ProxySystem :=
  { (self.looked sys key).set i .over with
    answers := ⟨request, serveCachedResponse sys.clock request status cached, self.source sys key⟩
      :: sys.answers }

def cacheLookup (ttl : UInt64) : ProxySystem :=
  let key := self.cacheKey request
  match self.lookup sys key with
  | .error _ => (self.looked sys key).set i .over
  | .ok (some (cached, false)) => self.serve sys i request key .hit cached
  | .ok (some (cached, true)) =>
    { self.serve sys i request key .stale cached with
      revalidations := if self.site.hasOrigin then key :: sys.revalidations else sys.revalidations }
  | .ok none =>
    if sys.coalescing.contains key then (self.looked sys key).set i
      (.waiting (self.missed request ttl))
    else
      { (self.looked sys key).set i
          (.forwarded { self.missed request ttl with isCoalescingLeader := true }) with
        coalescing := key :: sys.coalescing }

def arrive : ProxySystem :=
  match self.decision request with
  | .error _ => sys.set i .over
  | .ok d =>
    if d.cacheable then self.cacheLookup sys i request d.ttl else sys.set i
      (.forwarded (detected request))

/-- The second lookup of a follower does not ask whether the entry is stale. -/
def resume (ctx : ProxyCtx) : ProxySystem :=
  match ctx.cacheKey with
  | none => sys
  | some key =>
    match self.lookup sys key with
    | .error _ => (self.looked sys key).set i .over
    | .ok (some (cached, _)) => self.serve sys i request key .hit cached
    | .ok none => (self.looked sys key).set i (.forwarded ctx)

def receive (i : Nat) (x : Exchange) (ctx : ProxyCtx) (data : Option Bytes)
    (left : List (Option Bytes)) : ProxySystem :=
  let received := self.cacheBody sys.clock data left.isEmpty ctx
  let released := if left.isEmpty then releaseLeader received.1 else (received.1, none)
  { sys.set i (.receiving released.1 left) with
    puts := (received.2.toList.map fun w => (w, x)) ++ sys.puts }
    |>.release released.2

def revalidate (n : Nat) (response : OriginResponse) : ProxySystem :=
  match sys.revalidations[n]? with
  | some key =>
    { sys with
      revalidations := sys.revalidations.eraseIdx n
      puts := (self.revalidatedWrite key sys.clock response, ⟨self.revalidationRequest, response⟩)
        :: sys.puts }
  | none => sys

def put (sys : ProxySystem) (n : Nat) : ProxySystem :=
  match sys.puts[n]? with
  | some s =>
    { sys with
      cache := sys.cache.step self.profile (.put s.1)
      puts := sys.puts.eraseIdx n
      sources := s.2 :: sys.sources }
  | none => sys

def upkeep : CacheEvent → ProxySystem
  -- writes are spawned by requests and revalidations only
  | .put _ => sys
  | e => { sys with cache := sys.cache.step self.profile e }

/-- An event for a request that is not in the phase for it does nothing. -/
def step : ProxyEvent → ProxySystem
  | .arrive i =>
    match sys.flights i with
    | .idle => self.arrive sys i (traffic.exchange i).request
    | _ => sys
  | .resume i =>
    match sys.flights i with
    | .woken ctx => self.resume sys i (traffic.exchange i).request ctx
    | _ => sys
  | .timeout i =>
    match sys.flights i with
    | .waiting ctx => sys.set i (.forwarded ctx)
    | _ => sys
  | .header i =>
    match sys.flights i with
    | .forwarded ctx =>
      let x := traffic.exchange i
      sys.set i (.receiving (self.responseFilter sys.clock x.request x.response ctx)
        x.response.body)
    | _ => sys
  | .body i =>
    match sys.flights i with
    | .receiving ctx (data :: left) => self.receive sys i (traffic.exchange i) ctx data left
    | _ => sys
  | .finish i =>
    match (sys.flights i).ctx with
    | some ctx => (sys.set i .over).release (releaseLeader ctx).2
    | none => sys
  | .put n => self.put sys n
  | .revalidate n k => self.revalidate sys n (traffic.revalidated k)
  | .upkeep e => self.upkeep sys e

def run (events : List ProxyEvent) (sys : ProxySystem) : ProxySystem :=
  events.foldl (self.step traffic) sys

end CdnProxy

end Nozdormu.Proxy
