import Mathlib.Data.List.AList
import Nozdormu.Cache.Key
import Nozdormu.Rust.Task

/-!
# Cache storage

`cdn-cache/src/storage.rs`: the metadata of an entry lies in Redis under a time to live, its body
lies in an object store that keeps it until it is deleted. The functions are tasks that call the
two stores; `Stores.serve` answers the calls when both stores can be reached.
-/

namespace Nozdormu.Cache

open Rust Bmff

/-- Cached response metadata. Times are `i64` seconds. -/
structure CacheMeta where
  status : UInt16
  headers : List (Str × Str)
  cachedAt : Int
  expiresAt : Int
  size : UInt64
  etag : Option Str
  /-- Seconds; 0 disables it. -/
  staleWhileRevalidate : UInt64
  tags : List Str
deriving DecidableEq, Repr

structure CachedResponse where
  metadata : CacheMeta
  body : Bytes
deriving DecidableEq, Repr

def eqIgnoreAsciiCase (a b : Str) : Bool := a.map Char.toLower = b.map Char.toLower

def excludedResponseHeaders : List Str :=
  ["set-cookie", "x-cache-status", "age", "connection",
    "keep-alive", "transfer-encoding"]

/-- `collect` into a `HashMap`: of two values under one name the later one stays. -/
def collectHeaders (headers : List (Str × Str)) : List (Str × Str) :=
  headers.foldl (fun kept h => kept.filter (·.1 ≠ h.1) ++ [h]) []

/-- Ten years. -/
def maxTtl : Nat := 86400 * 365 * 10

def saturatingAdd64 (a b : Int) : Int := max (-2 ^ 63) (min (2 ^ 63 - 1) (a + b))

def buildCacheMeta (now : Int) (status : UInt16) (headers : List (Str × Str))
    (ttl bodySize : UInt64) (staleWhileRevalidate : UInt64) (tags : List Str) : CacheMeta :=
  { status
    headers := collectHeaders
      (headers.filter fun h => !excludedResponseHeaders.any (eqIgnoreAsciiCase h.1))
    cachedAt := now
    expiresAt := saturatingAdd64 now (min ttl.toNat maxTtl : Nat)
    size := bodySize
    etag := (headers.find? fun h => eqIgnoreAsciiCase h.1 "etag").map (·.2)
    staleWhileRevalidate, tags }

def addTag (tags : List Str) (tag : Str) : List Str :=
  if !(trim tag).isEmpty && !tags.contains (trim tag) then tags ++ [trim tag] else tags

/-- The tags of `Surrogate-Key` and `Cache-Tag`, each once. -/
def parseCacheTags (headers : List (Str × Str)) : List Str :=
  headers.foldl (fun tags h =>
    if eqIgnoreAsciiCase h.1 "surrogate-key" || eqIgnoreAsciiCase h.1 "cache-tag" then
      (splitWhitespace h.2).foldl addTag tags
    else tags) []

/-! ## Calls to the stores -/

inductive OssError where
  | network (what : String)
  | api (status : Nat) (body : String)
  | notFound
  | xml (what : String)
deriving DecidableEq, Repr

def OssError.display : OssError → String
  | network e => "OSS network error: " ++ e
  | api status body => "OSS API error " ++ toString status ++ ": " ++ body
  | notFound => "OSS object not found"
  | xml e => "OSS XML parse error: " ++ e

/-- What the functions await, and the start of a background `DEL`. -/
inductive StoreCall where
  | redisGet (key : Str)
  | redisSetex (key : Str) (seconds : Nat) (value : CacheMeta)
  | redisDel (key : Str)
  | redisSadd (key member : Str)
  | redisSmembers (key : Str)
  | redisSrem (key member : Str)
  | redisExpire (key : Str) (seconds : Nat)
  | getObject (path : Str)
  | getObjectRange (path : Str) (start stop : UInt64)
  | putObject (path : Str) (body : Bytes) (contentType : Str)
  | deleteObject (path : Str)
  /-- One multi-object delete; the answer is the number of `Deleted` elements. -/
  | deleteObjects (paths : List Str)
  /-- `Utc::now().timestamp()` -/
  | timestamp
  | spawnDel (key : Str)

abbrev StoreCall.Answer : StoreCall → Type
  | redisGet _ => Except String (Option CacheMeta)
  | redisSetex .. => Except String Unit
  | redisDel _ => Except String Unit
  | redisSadd .. => Except String Unit
  | redisSmembers _ => Except String (List Str)
  | redisSrem .. => Except String Unit
  | redisExpire .. => Except String Unit
  | getObject _ => Except OssError Bytes
  | getObjectRange .. => Except OssError Bytes
  | putObject .. => Except OssError Unit
  | deleteObject _ => Except OssError Unit
  | deleteObjects _ => Except OssError Nat
  | timestamp => Int
  | spawnDel _ => Unit

abbrev StoreTask (α : Type) : Type := Task StoreCall StoreCall.Answer α

namespace Redis

variable (key : Str)

abbrev get : StoreTask (Except String (Option CacheMeta)) := .perform (StoreCall.redisGet key)
abbrev setex (seconds : Nat) (value : CacheMeta) : StoreTask (Except String Unit) :=
  .perform (StoreCall.redisSetex key seconds value)
abbrev del : StoreTask (Except String Unit) := .perform (StoreCall.redisDel key)
abbrev sadd (key member : Str) :
    StoreTask (Except String Unit) := .perform (StoreCall.redisSadd key member)
abbrev smembers : StoreTask (Except String (List Str)) := .perform (StoreCall.redisSmembers key)
abbrev srem (key member : Str) :
    StoreTask (Except String Unit) := .perform (StoreCall.redisSrem key member)
abbrev expire (seconds : Nat) : StoreTask (Except String Unit) :=
  .perform (StoreCall.redisExpire key seconds)
abbrev spawnDel (key : Str) : StoreTask Unit := .perform (StoreCall.spawnDel key)

end Redis

namespace Oss

abbrev getObject (path : Str) : StoreTask (Except OssError Bytes) :=
    .perform (StoreCall.getObject path)
abbrev getObjectRange (path : Str) (start stop : UInt64) : StoreTask (Except OssError Bytes) :=
  .perform (StoreCall.getObjectRange path start stop)
abbrev putObject (path : Str) (body : Bytes) (contentType : Str) :
    StoreTask (Except OssError Unit) :=
  .perform (StoreCall.putObject path body contentType)
abbrev deleteObject (path : Str) :
    StoreTask (Except OssError Unit) := .perform (StoreCall.deleteObject path)
abbrev deleteObjects (paths : List Str) : StoreTask (Except OssError Nat) :=
  .perform (StoreCall.deleteObjects paths)

end Oss

abbrev timestamp : StoreTask Int := .perform StoreCall.timestamp

/-- Which backends are configured. -/
structure CacheStorage where
  oss : Bool
  redis : Bool
deriving DecidableEq, Repr

def metaKey (siteId cacheKey : Str) : Str :=
  "nozdormu:cache:meta:" ++ siteId ++ ":" ++ cacheKey

def tagKey (siteId tag : Str) : Str := "nozdormu:cache:tag:" ++ siteId ++ ":" ++ tag

namespace CacheStorage

def readMeta (self : CacheStorage) (key : Str) : StoreTask (Option CacheMeta) :=
  if self.redis then do
    let answer ← Redis.get key
    return answer.toOption.join
  else return none

def fallbackMeta (now : Int) (body : Bytes) : CacheMeta :=
  { status := 200, headers := [], cachedAt := now, expiresAt := now + 60
    size := UInt64.ofNat body.length, etag := none, staleWhileRevalidate := 0, tags := [] }

/-- OSS-only path. -/
def readWithoutMeta (path : Str) : StoreTask (Option CachedResponse) := do
  match ← Oss.getObject path with
  | .ok body => do
    let now ← timestamp
    return some ⟨fallbackMeta now body, body⟩
  | .error _ => return none

/-- The body for metadata that is still valid; without a body the metadata is dropped. -/
def readFresh (key path : Str) (found : CacheMeta) : StoreTask (Option CachedResponse) := do
  match ← Oss.getObject path with
  | .ok body => return some ⟨found, body⟩
  | .error _ => do
    Redis.spawnDel key
    return none

/-- The body for metadata that has expired, in the stale window or not. -/
def readExpired (p : Profile) (key path : Str) (found : CacheMeta) (now : Int) :
    StoreTask (Option CachedResponse) := do
  let staleDeadline ← Task.ofExec
      (p.signed 64 (found.expiresAt + found.staleWhileRevalidate.toInt64.toInt))
  if 0 < found.staleWhileRevalidate ∧ now < staleDeadline then
    match ← Oss.getObject path with
    | .ok body => return some ⟨found, body⟩
    | .error _ => return none
  else
    Redis.spawnDel key
    return none

/-- How the three reads begin: with an object store, the path of the body and the metadata. -/
def withEntry {α : Type} (self : CacheStorage) (siteId cacheKey : Str)
    (read : (path : Str) → Option CacheMeta → StoreTask (Option α)) : StoreTask (Option α) :=
  if self.oss then do
    let path ← Task.ofExec (cacheObjectPath siteId cacheKey)
    let found ← self.readMeta (metaKey siteId cacheKey)
    read path found
  else return none

def get (self : CacheStorage) (siteId cacheKey : Str) : StoreTask (Option CachedResponse) :=
  self.withEntry siteId cacheKey fun path found =>
    match found with
    | some found => do
      let now ← timestamp
      if found.expiresAt ≤ now then do
        Redis.spawnDel (metaKey siteId cacheKey)
        return none
      else readFresh (metaKey siteId cacheKey) path found
    | none => readWithoutMeta path

/-- The flag is set for an entry that has expired but is in its stale window. -/
def getWithStale (p : Profile) (self : CacheStorage) (siteId cacheKey : Str) :
    StoreTask (Option (CachedResponse × Bool)) :=
  self.withEntry siteId cacheKey fun path found =>
    match found with
    | some found => do
      let now ← timestamp
      if found.expiresAt ≤ now then do
        let response ← readExpired p (metaKey siteId cacheKey) path found now
        return response.map fun r => (r, true)
      else do
        let response ← readFresh (metaKey siteId cacheKey) path found
        return response.map fun r => (r, false)
    | none => do
      let response ← readWithoutMeta path
      return response.map fun r => (r, false)

def getRange (self : CacheStorage) (siteId cacheKey : Str) (start stop : UInt64) :
    StoreTask (Option (CacheMeta × Bytes)) :=
  self.withEntry siteId cacheKey fun path found =>
    match found with
    | some found => do
      let now ← timestamp
      if found.expiresAt ≤ now then return none
      else
        match ← Oss.getObjectRange path start stop with
        | .ok body => return some (found, body)
        | .error _ => return none
    | none => return none

/-- One year, the longest time to live in Redis. -/
def maxRedisTtl : Int := 86400 * 365

/-- Enter the key into the set of each tag; failures are logged only. -/
def putTags (siteId cacheKey : Str) (ttl : Nat) (tags : List Str) : StoreTask PUnit :=
  tags.forM fun tag => do
    let _ ← Redis.sadd (tagKey siteId tag) cacheKey
    let _ ← Redis.expire (tagKey siteId tag) (ttl + 3600)

def put (p : Profile) (self : CacheStorage) (siteId cacheKey : Str) (metadata : CacheMeta)
    (body : Bytes) : StoreTask (Except String Unit) :=
  if self.oss then do
    let path ← Task.ofExec (cacheObjectPath siteId cacheKey)
    let contentType := (metadata.headers.lookup "content-type".toList).getD
      "application/octet-stream".toList
    match ← Oss.putObject path body contentType with
    | .error e => return .error ("OSS put error: " ++ e.display)
    | .ok _ => do
      let now ← timestamp
      let left ← Task.ofExec (p.signed 64 (metadata.expiresAt - now))
      let ttl := (max 1 (min left maxRedisTtl)).toNat
      if self.redis then do
        let _ ← Redis.setex (metaKey siteId cacheKey) ttl metadata
        putTags siteId cacheKey ttl metadata.tags
        return .ok ()
      else return .ok ()
  else return .error "OSS not configured"

def removeTags (self : CacheStorage) (siteId cacheKey : Str) : StoreTask PUnit := do
  match ← self.readMeta (metaKey siteId cacheKey) with
  | some found => found.tags.forM fun tag => do
    let _ ← Redis.srem (tagKey siteId tag) cacheKey
  | none => return ⟨⟩

def delete (self : CacheStorage) (siteId cacheKey : Str) : StoreTask (Except String Unit) :=
  if self.oss then do
    let path ← Task.ofExec (cacheObjectPath siteId cacheKey)
    self.removeTags siteId cacheKey
    match ← Oss.deleteObject path with
    | .error e => return .error ("OSS delete error: " ++ e.display)
    | .ok _ =>
      if self.redis then do
        let _ ← Redis.del (metaKey siteId cacheKey)
        return .ok ()
      else return .ok ()
  else return .error "OSS not configured"

/-- `delete_objects_batch` (`oss.rs`): chunks of 1000, up to the first failure. -/
def deleteObjectsBatch (p : Profile) : (chunks : List (List Str)) → (total : Nat) →
    StoreTask (Except OssError Nat)
  | [], total => return .ok total
  | chunk :: chunks, total => do
    match ← Oss.deleteObjects chunk with
    | .error e => return .error e
    | .ok count => do
      let total ← Task.ofExec (p.add 32 total count)
      deleteObjectsBatch p chunks total

/-- The deletions of a chunk run side by side and are awaited; they are for different keys. -/
def deleteMetas (siteId : Str) (cacheKeys : List Str) : StoreTask PUnit :=
  cacheKeys.forM fun key => do
    let _ ← Redis.del (metaKey siteId key)

def deleteBodies (p : Profile) (self : CacheStorage) (siteId : Str) (cacheKeys : List Str) :
    StoreTask (Except OssError Nat) :=
  if self.oss then do
    let paths ← Task.ofExec (cacheKeys.mapM fun key => cacheObjectPath siteId key)
    deleteObjectsBatch p (paths.toChunks 1000) 0
  else return .ok 0

def deleteMany (p : Profile) (self : CacheStorage) (siteId : Str) (cacheKeys : List Str) :
    StoreTask (Except String Nat) :=
  if cacheKeys.isEmpty then return .ok 0
  else do
    match ← self.deleteBodies p siteId cacheKeys with
    | .error e => return .error ("OSS batch delete error: " ++ e.display)
    | .ok deleted =>
      if self.redis then do
        deleteMetas siteId cacheKeys
        return .ok deleted
      else return .ok deleted

def deleteByTag (p : Profile) (self : CacheStorage) (siteId tag : Str) :
    StoreTask (Except String Nat) :=
  if self.redis then do
    match ← Redis.smembers (tagKey siteId tag) with
    | .error e => return .error ("SMEMBERS failed: " ++ e)
    | .ok cacheKeys =>
      if cacheKeys.isEmpty then return .ok 0
      else do
        match ← self.deleteMany p siteId cacheKeys with
        | .error e => return .error e
        | .ok deleted => do
          let _ ← Redis.del (tagKey siteId tag)
          return .ok deleted
  else return .error "Redis not available"

end CacheStorage

/-! ## Stores that can be reached -/

/-- Milliseconds since the epoch, far below the end of `i64` seconds. -/
structure Clock where
  millis : Nat
  bound : millis < 2 ^ 63
deriving DecidableEq, Repr

theorem Clock.zero_bound : 0 < 2 ^ 63 := by decide

def Clock.timestamp (c : Clock) : Int := (c.millis / 1000 : Nat)

inductive RedisValue where
  | record (found : CacheMeta)
  | members (keys : List Str)
deriving DecidableEq, Repr

structure RedisEntry where
  value : RedisValue
  /-- The last millisecond at which the key is there. -/
  deadline : Option Nat
deriving DecidableEq, Repr

/-- The clock, both stores, and the keys whose background `DEL` has been started. -/
structure Stores where
  clock : Clock
  redis : AList fun _ : Str => RedisEntry
  objects : AList fun _ : Str => Bytes
  spawned : List Str

namespace Stores

/-- The entry of a key that has not run out of time. -/
def live (s : Stores) (key : Str) : Option RedisEntry :=
  (s.redis.lookup key).filter fun e => e.deadline.all fun d => s.clock.millis ≤ d

def setEntry (s : Stores) (key : Str) (e : RedisEntry) : Stores :=
  { s with redis := s.redis.insert key e }

def dropEntry (s : Stores) (key : Str) : Stores := { s with redis := s.redis.erase key }

def getAnswer : Option RedisEntry → Except String (Option CacheMeta)
  | some ⟨.record found, _⟩ => .ok (some found)
  | some ⟨.members _, _⟩ => .error "WRONGTYPE"
  | none => .ok none

/-- `SADD` keeps the deadline of a set that is there. -/
def sadd (s : Stores) (key member : Str) : Except String Unit × Stores :=
  match s.live key with
  | some ⟨.members keys, deadline⟩ =>
      (.ok (), s.setEntry key ⟨.members (keys.insert member), deadline⟩)
  | some ⟨.record _, _⟩ => (.error "WRONGTYPE", s)
  | none => (.ok (), s.setEntry key ⟨.members [member], none⟩)

/-- `SREM` of the last member removes the key. -/
def srem (s : Stores) (key member : Str) : Except String Unit × Stores :=
  match s.live key with
  | some ⟨.members keys, deadline⟩ =>
    if (keys.erase member).isEmpty then (.ok (), s.dropEntry key)
    else (.ok (), s.setEntry key ⟨.members (keys.erase member), deadline⟩)
  | some ⟨.record _, _⟩ => (.error "WRONGTYPE", s)
  | none => (.ok (), s)

def membersAnswer : Option RedisEntry → Except String (List Str)
  | some ⟨.members keys, _⟩ => .ok keys
  | some ⟨.record _, _⟩ => .error "WRONGTYPE"
  | none => .ok []

def expire (s : Stores) (key : Str) (seconds : Nat) : Stores :=
  match s.live key with
  | some e => s.setEntry key { e with deadline := some (s.clock.millis + 1000 * seconds) }
  | none => s

def objectAnswer : Option Bytes → Except OssError Bytes
  | some body => .ok body
  | none => .error .notFound

def rangeAnswer (start stop : UInt64) : Option Bytes → Except OssError Bytes
  | some body =>
    if start.toNat < body.length ∧ start ≤ stop then
      .ok ((body.drop start.toNat).take (stop.toNat - start.toNat + 1))
    else .error (.api 416 "InvalidRange")
  | none => .error .notFound

/-- The answer to a call. Multi-object deletes are asked for in quiet mode, so their answer names
no deleted object. -/
def serve : (c : StoreCall) → Stores → c.Answer × Stores
  | .redisGet key, s => (getAnswer (s.live key), s)
  | .redisSetex key seconds value, s =>
    (.ok (), s.setEntry key ⟨.record value, some (s.clock.millis + 1000 * seconds)⟩)
  | .redisDel key, s => (.ok (), s.dropEntry key)
  | .redisSadd key member, s => s.sadd key member
  | .redisSmembers key, s => (membersAnswer (s.live key), s)
  | .redisSrem key member, s => s.srem key member
  | .redisExpire key seconds, s => (.ok (), s.expire key seconds)
  | .getObject path, s => (objectAnswer (s.objects.lookup path), s)
  | .getObjectRange path start stop, s => (rangeAnswer start stop (s.objects.lookup path), s)
  | .putObject path body _, s => (.ok (), { s with objects := s.objects.insert path body })
  | .deleteObject path, s => (.ok (), { s with objects := s.objects.erase path })
  | .deleteObjects paths, s =>
    (.ok 0, { s with objects := paths.foldl (fun o path => o.erase path) s.objects })
  | .timestamp, s => (s.clock.timestamp, s)
  | .spawnDel key, s => ((), { s with spawned := s.spawned ++ [key] })

def metaOf (s : Stores) (key : Str) : Option CacheMeta :=
  (getAnswer (s.live key)).toOption.join

end Stores

end Nozdormu.Cache
