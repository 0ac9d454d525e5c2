import Nozdormu.Cache.Freshness
import Nozdormu.Data.Glob
import Nozdormu.Proxy.CacheFilters
import Nozdormu.Rust.TaskTriple

/-!
# Purging

`cdn-proxy/src/admin/purge.rs` and `purge_cache` of `admin/endpoints.rs`: the administrator asks for
one URL, one tag or a whole site to be taken out of the cache.
-/

namespace Nozdormu.Admin

open Rust Bmff Cache Proxy Data

inductive AdminCall where
  | store (c : StoreCall)
  /-- One iteration with `SCAN`; the answers are its pages. -/
  | scan (pattern : Str) (count : Nat)
  | listObjects (begins : Str) (maxKeys : Nat)

abbrev AdminCall.Answer : AdminCall → Type
  | store c => c.Answer
  | scan .. => List (Except String (List Str))
  | listObjects .. => Except OssError (List Str)

abbrev AdminTask (α : Type) : Type := Task AdminCall AdminCall.Answer α

def onStores {α : Type} (t : StoreTask α) :
    AdminTask α := t.embed AdminCall.store fun _ answer => answer

inductive PurgeRequest where
  | url (siteId host path : Str) (queryString : Option Str := none)
      (sortQueryString : Bool := false)
      (varyHeaders : List (Str × Str) := [])
  | site (siteId : Str)
  | tag (siteId tag : Str)
deriving DecidableEq, Repr

inductive PurgeReply where
  | error (message : Str)
  | url (siteId cacheKey : Str) (keysDeleted : Nat)
  | site (siteId taskId : Str)
  | tag (siteId tag : Str) (keysDeleted : Nat)
deriving DecidableEq, Repr

inductive PurgeTaskState where
  | running
  | completed
  | failed
deriving DecidableEq, Repr

structure PurgeTaskStatus where
  taskId : Str
  siteId : Str
  status : PurgeTaskState
  keysDeleted : Nat
  startedAt : Int
  completedAt : Option Int
  error : Option String
deriving DecidableEq, Repr

namespace PurgeTaskTracker

/-- Tasks that have ended are dropped after an hour. -/
def insert (now : Int) (status : PurgeTaskStatus) (tasks : List PurgeTaskStatus) :
    List PurgeTaskStatus :=
  let kept := tasks.filter fun t =>
    t.status = .running || now - 3600 < t.completedAt.getD t.startedAt
  kept.filter (·.taskId ≠ status.taskId) ++ [status]

def update (taskId : Str) (f : PurgeTaskStatus → PurgeTaskStatus) (tasks : List PurgeTaskStatus) :
    List PurgeTaskStatus := tasks.map fun t => if t.taskId = taskId then f t else t

def updateCompleted (now : Int) (taskId : Str) (keysDeleted : Nat) :
    List PurgeTaskStatus → List PurgeTaskStatus :=
  update taskId fun t => { t with status := .completed, keysDeleted, completedAt := some now }

def updateFailed (now : Int) (taskId : Str) (error : String) :
    List PurgeTaskStatus → List PurgeTaskStatus :=
  update taskId fun t => { t with status := .failed, error := some error, completedAt := some now }

def hasActiveForSite (siteId : Str) (tasks : List PurgeTaskStatus) : Bool :=
  tasks.any fun t => t.siteId = siteId && t.status = .running

end PurgeTaskTracker

structure AdminState where
  storage : CacheStorage
  /-- A connection of `RedisPool`. -/
  redisPool : Bool
  sites : List Str
  md5 : Bytes → Str
  tasks : List PurgeTaskStatus

def validateSiteId (siteId : Str) : Except Str Unit :=
  if siteId.isEmpty then .error "site_id cannot be empty"
  else if 64 < byteLen siteId then .error "site_id too long (max 64 chars)"
  else if strContains "/" siteId || strContains "\\" siteId || strContains ".." siteId then
    .error "site_id contains invalid characters"
  else .ok ()

def validatePurgeUrl (host path : Str) : Except Str Unit :=
  if host.isEmpty then .error "host cannot be empty"
  else if path.head? ≠ some '/' then .error "path must start with /"
  else .ok ()

/-- The arguments of the key of a URL, as the request gives them. -/
def urlParts (siteId host path : Str) (queryString : Option Str) (sortQueryString : Bool)
    (varyHeaders : List (Str × Str)) : KeyParts where
  siteId := strBytes siteId
  host := strBytes host
  path := strBytes path
  queryString := queryString.map strBytes
  sortQueryString := sortQueryString
  varyHeaders := varyHeaders.map fun h => (strBytes h.1, strBytes h.2)

section Purges

variable (p : Profile)

def purgeUrl (state : AdminState) (parts : KeyParts) (siteId : Str) :
    AdminTask (Except String Str) := do
  let cacheKey := generateCacheKey state.md5 parts
  let result ← onStores (state.storage.delete siteId cacheKey)
  return result.map fun _ => cacheKey

def maxKeys : Nat := 1000000

/-- The loop of `scan_keys`: page by page, up to the cap. -/
def scanPages : (pages : List (Except String (List Str))) → (allKeys : List Str) →
    Except String (List Str)
  | [], allKeys => .ok allKeys
  | .error e :: _, _ => .error ("SCAN failed: " ++ e)
  | .ok keys :: pages, allKeys =>
    if maxKeys ≤ (allKeys ++ keys).length then .ok (allKeys ++ keys)
    else scanPages pages (allKeys ++ keys)

def scanKeys (redisPool : Bool) (pattern : Str) (count : Nat) :
    AdminTask (Except String (List Str)) :=
  if redisPool then do
    let pages ← Task.perform (AdminCall.scan pattern count)
    return scanPages pages []
  else return .error "Redis not available"

def sitePrefix (siteId : Str) : Str := "nozdormu:cache:meta:" ++ siteId ++ ":"

def deleteSiteOssOnly (storage : CacheStorage) (siteId : Str) : AdminTask (Except String Nat) :=
  if storage.oss then do
    match ← Task.perform (AdminCall.listObjects ("cache/" ++ siteId ++ "/") maxKeys) with
    | .error e => return .error ("OSS list error: " ++ e.display)
    | .ok keys =>
      if keys.isEmpty then return .ok 0
      else do
        match ← onStores (CacheStorage.deleteObjectsBatch p (keys.toChunks 1000) 0) with
        | .error e => return .error ("OSS batch delete error: " ++ e.display)
        | .ok deleted => return .ok deleted
  else return .error "OSS not configured"

/-- What the `SCAN` finds is deleted; if it finds nothing or fails, the object store is listed. -/
def purgeSiteInner (state : AdminState) (siteId : Str) : AdminTask (Except String Nat) := do
  match ← scanKeys state.redisPool (sitePrefix siteId ++ "*") 100 with
  | .ok redisKeys =>
    if redisKeys.isEmpty then deleteSiteOssOnly p state.storage siteId
    else onStores (state.storage.deleteMany p siteId
      (redisKeys.filterMap (stripStart (sitePrefix siteId))))
  | .error _ => deleteSiteOssOnly p state.storage siteId

def purgeSiteBackground (state : AdminState) (siteId taskId : Str) :
    AdminTask (List PurgeTaskStatus) := do
  let result ← purgeSiteInner p state siteId
  let now ← onStores timestamp
  match result with
  | .ok keysDeleted => return PurgeTaskTracker.updateCompleted now taskId keysDeleted state.tasks
  | .error e => return PurgeTaskTracker.updateFailed now taskId e state.tasks

/-- The status of an answer and its body, and the tasks that are tracked then. -/
abbrev Answered : Type := Nat × PurgeReply × List PurgeTaskStatus

def notFound (siteId : Str) : PurgeReply := .error ("site '" ++ siteId ++ "' not found")

def purgeCacheUrl (state : AdminState) (siteId host path : Str) (queryString : Option Str)
    (sortQueryString : Bool) (varyHeaders : List (Str × Str)) : AdminTask Answered :=
  match validateSiteId siteId, validatePurgeUrl host path with
  | .error e, _ => return (400, .error e, state.tasks)
  | .ok _, .error e => return (400, .error e, state.tasks)
  | .ok _, .ok _ =>
    if !state.sites.contains siteId then return (404, notFound siteId, state.tasks)
    else do
      match ← purgeUrl state
        (urlParts siteId host path queryString sortQueryString varyHeaders) siteId with
      | .ok cacheKey => return (200, .url siteId cacheKey 1, state.tasks)
      | .error e => return (500, .error ("purge failed: " ++ e.toList), state.tasks)

/-- A site purge is only started here. -/
def purgeCacheSite (state : AdminState) (taskId siteId : Str) : AdminTask Answered :=
  match validateSiteId siteId with
  | .error e => return (400, .error e, state.tasks)
  | .ok _ =>
    if !state.sites.contains siteId then return (404, notFound siteId, state.tasks)
    else if PurgeTaskTracker.hasActiveForSite siteId state.tasks then
      return (409, .error ("a purge is already running for site '" ++ siteId ++ "'"),
        state.tasks)
    else do
      let now ← onStores timestamp
      return (202, .site siteId taskId, PurgeTaskTracker.insert now
        ⟨taskId, siteId, .running, 0, now, none, none⟩ state.tasks)

def purgeCacheTag (state : AdminState) (siteId tag : Str) : AdminTask Answered :=
  match validateSiteId siteId with
  | .error e => return (400, .error e, state.tasks)
  | .ok _ =>
    if tag.isEmpty then return (400, .error "tag cannot be empty", state.tasks)
    else if 128 < byteLen tag then return (400, .error "tag too long (max 128 chars)", state.tasks)
    else if !state.sites.contains siteId then return (404, notFound siteId, state.tasks)
    else do
      match ← onStores (state.storage.deleteByTag p siteId tag) with
      | .ok deleted => return (200, .tag siteId tag deleted, state.tasks)
      | .error e => return (500, .error ("tag purge failed: " ++ e.toList), state.tasks)

/-- `POST /cache/purge`. -/
def purgeCache (state : AdminState) (taskId : Str) : PurgeRequest → AdminTask Answered
  | .url siteId host path queryString sortQueryString varyHeaders =>
    purgeCacheUrl state siteId host path queryString sortQueryString varyHeaders
  | .site siteId => purgeCacheSite state taskId siteId
  | .tag siteId tag => purgeCacheTag p state siteId tag

end Purges

/-- How Redis cuts the keys of an iteration into pages. -/
structure Paging where
  pages : List Str → List (List Str)
  mem_pages : ∀ keys key, key ∈ (pages keys).flatten ↔ key ∈ keys

/-- All keys in one page. -/
def onePage : Paging := ⟨fun keys => [keys], fun _ _ => by rw [List.flatten_singleton]⟩

/-- The stores, for each call to come whether it fails, and the objects that S3 refuses to every
multi-object delete that names them. -/
structure Backends where
  stores : Stores
  paging : Paging
  outages : List Bool
  refused : List Str

namespace Backends

variable (s : Stores)

def matching (pattern : Str) : List Str :=
  s.redis.keys.filter fun key => (s.live key).isSome && glob (strBytes pattern) (strBytes key)

def listed (begins : Str) : List Str :=
  s.objects.keys.filter fun path => (stripStart begins path).isSome

/-- The answer to a call that fails. -/
def refuseStore : (c : StoreCall) → c.Answer
  | .redisGet _ => .error "unreachable"
  | .redisSetex .. => .error "unreachable"
  | .redisDel _ => .error "unreachable"
  | .redisSadd .. => .error "unreachable"
  | .redisSmembers _ => .error "unreachable"
  | .redisSrem .. => .error "unreachable"
  | .redisExpire .. => .error "unreachable"
  | .getObject _ => .error (.network "unreachable")
  | .getObjectRange .. => .error (.network "unreachable")
  | .putObject .. => .error (.network "unreachable")
  | .deleteObject _ => .error (.network "unreachable")
  | .deleteObjects _ => .error (.network "unreachable")
  | .timestamp => s.clock.timestamp
  | .spawnDel _ => ()

def refuse : (c : AdminCall) → c.Answer
  | .store c => refuseStore s c
  | .scan .. => [.error "unreachable"]
  | .listObjects .. => .error (.network "unreachable")

/-- What is left of a call without the refused objects. -/
def accepted (refused : List Str) : StoreCall → StoreCall
  | .deleteObjects paths => .deleteObjects (paths.filter (!refused.contains ·))
  | c => c

/-- A multi-object delete is answered with status 200 also if some objects are refused, and the
code does not look for errors in the answer. -/
def serveExcept (refused : List Str) : (c : StoreCall) → Stores → c.Answer × Stores
  | .deleteObjects paths, s => Stores.serve (accepted refused (.deleteObjects paths)) s
  | c, s => Stores.serve c s

def answer (b : Backends) : (c : AdminCall) → c.Answer × Stores
  | .store c => serveExcept b.refused c b.stores
  | .scan pattern _ => ((b.paging.pages (matching b.stores pattern)).map .ok, b.stores)
  | .listObjects begins maxKeys => (.ok ((listed b.stores begins).take maxKeys), b.stores)

def serve (c : AdminCall) (b : Backends) : c.Answer × Backends :=
  if b.outages.headD false then (refuse b.stores c, { b with outages := b.outages.tail })
  else ((b.answer c).1, { b with stores := (b.answer c).2, outages := b.outages.tail })

def serveStore (c : StoreCall) (b : Backends) : c.Answer × Backends := serve (.store c) b

/-! ## What the calls leave behind -/

theorem stores_serve (c : StoreCall) (b : Backends) : (serve (.store c) b).2.stores = b.stores ∨
    (serve (.store c) b).2.stores = (Stores.serve (accepted b.refused c) b.stores).2 := by
  unfold serve
  split
  · exact .inl rfl
  · cases c with
    | _ => exact .inr rfl

/-- A read deletes nothing, so it does not matter what S3 refuses. -/
theorem serveExcept_read {siteId key : Str} {refused : List Str} {c : StoreCall}
    (h : Reading siteId key c) : serveExcept refused c s = Stores.serve c s := by
  cases c with
  | deleteObjects paths => exact absurd h id
  | _ => rfl

/-- Calls that store nothing. -/
def Quiet : AdminCall → Prop
  | .store c => Fading c
  | _ => True

theorem fades_serve {c : AdminCall} (h : Quiet c) (b : Backends) :
    b.stores.Fades (serve c b).2.stores := by
  cases c with
  | store c =>
    rcases stores_serve c b with hstores | hstores
    · exact hstores ▸ .refl _
    · rw [hstores]
      refine Stores.fades_serve ?_ b.stores
      cases c with
      | _ => exact h
  | scan | listObjects =>
    unfold serve
    split <;> exact .refl _

/-- There is no body at the path. -/
def Absent (path : Str) (b : Backends) : Prop := b.stores.objects.lookup path = none

theorem Absent.fades {path : Str} {b b' : Backends} (h : Absent path b)
    (hfades : b.stores.Fades b'.stores) :
    Absent path b' := by
  cases hbody : b'.stores.objects.lookup path with
  | none => exact hbody
  | some body =>
    have hbefore := hfades.objects hbody
    rw [h] at hbefore
    cases hbefore

variable {α : Type}

theorem run_onStores_eq (t : StoreTask α) (b : Backends) :
    (onStores t).run serve b = t.run serveStore b := by
  have hserve : ∀ c b,
      (serve (.store c) b).1 = (serveStore c b).1 ∧ (serve (.store c) b).2 = (serveStore c b).2 :=
    fun _ _ => ⟨rfl, rfl⟩
  exact Task.run_embed AdminCall.store (fun _ r => r) serveStore serve (fun b => b) hserve t b

theorem ensures_onStores {P : Backends → Prop} {t : StoreTask α} {Q : α → Backends → Prop}
    (h : Task.Ensures serveStore P t Q) : Task.Ensures serve P (onStores t) Q := by
  intro b a b' hb hrun
  exact h b a b' hb ((run_onStores_eq t b).symm.trans hrun)

theorem run_onStores (t : StoreTask α) (s : Stores) (paging : Paging) :
    (onStores t).run serve ⟨s, paging, [], []⟩
      = ((t.run Stores.serve s).1, ⟨(t.run Stores.serve s).2, paging, [], []⟩) := by
  have hserve : ∀ c s, (serve (.store c) ⟨s, paging, [], []⟩).1 = (Stores.serve c s).1 ∧
        (serve (.store c) ⟨s, paging, [], []⟩).2 = ⟨(Stores.serve c s).2, paging, [], []⟩ := by
    intro c s
    cases c with
    | deleteObjects paths =>
      have hall : paths.filter (!([] : List Str).contains ·) = paths := by simp
      constructor
      · rfl
      · show Backends.mk (Stores.serve (.deleteObjects (paths.filter _)) s).2 paging [] [] = _
        rw [hall]
    | _ => exact ⟨rfl, rfl⟩
  exact Task.run_embed AdminCall.store (fun _ r => r) Stores.serve serve
    (fun s => ⟨s, paging, [], []⟩)
    hserve t s

theorem run_onStores_read {siteId key : Str} {t : StoreTask α} (ht : t.Only (Reading siteId key))
    (s : Stores) (paging : Paging) (refused : List Str) :
    ((onStores t).run serve ⟨s, paging, [], refused⟩).1 = (t.run Stores.serve s).1 := by
  have hagree : (t.run serveStore ⟨s, paging, [], refused⟩).1
      = (t.run serveStore ⟨s, paging, [], []⟩).1 := by
    refine Task.run_agree (R := fun b b' => b.stores = b'.stores ∧ b.outages = b'.outages) ?_ ht
      ⟨rfl, rfl⟩
    rintro c ⟨s, paging, outages, refused⟩ ⟨-, paging', -, refused'⟩ hc ⟨rfl, rfl⟩
    simp only [serveStore, serve, answer, serveExcept_read _ hc]
    split <;> exact ⟨rfl, rfl, rfl⟩
  rw [run_onStores_eq, hagree, ← run_onStores_eq, run_onStores]

open Task

theorem ensures_getObject {path : Str} {f : Except OssError Bytes → StoreTask α}
    {Q : α → Backends → Prop} (h : ∀ e, Ensures serveStore (Absent path) (f (.error e)) Q) :
    Ensures serveStore (Absent path) (Oss.getObject path >>= f) Q := by
  refine ensures_perform_bind (M := fun r b => (∃ e, r = .error e) ∧ Absent path b) ?_ ?_
  · intro b hb
    refine ⟨?_, hb.fades (fades_serve (c := .store (.getObject path)) trivial b)⟩
    unfold serveStore serve
    split
    · exact ⟨_, rfl⟩
    refine ⟨.notFound, ?_⟩
    show Stores.objectAnswer (b.stores.objects.lookup path) = _
    rw [hb]
    rfl
  · intro r b a b' hb hrun
    obtain ⟨⟨e, rfl⟩, hb⟩ := hb
    exact h e b a b' hb hrun

variable {storage : CacheStorage} {siteId key path : Str}

theorem ensures_getWithStale (p : Profile) (storage : CacheStorage)
    (hpath : (cacheObjectPath siteId key : Exec Empty Str) = .ok path) :
    Ensures serveStore (Absent path) (storage.getWithStale p siteId key) fun r _ => r = none := by
  have hnone : ∀ {r : Option CachedResponse} {stale : Bool}, Ensures serveStore (fun _ => r = none)
      (pure (r.map fun r => (r, stale)) : StoreTask _) fun r _ => r = none := by
    intro r stale
    refine ensures_done fun _ hr => ?_
    rw [hr]
    rfl
  unfold CacheStorage.getWithStale CacheStorage.withEntry
  split
  · refine ensures_ofExec_bind fun path' hpath' => ?_
    obtain rfl : path = path' := ok_unique hpath hpath'
    refine Ensures.bind (ensures_of_only (only_readMeta trivial) fun c b hc hb =>
      hb.fades (fades_serve (c := .store c) hc b)) fun found => ?_
    cases found with
    | none =>
      refine Ensures.bind ?_ fun _ => hnone
      exact ensures_getObject fun _ => ensures_done fun _ _ => rfl
    | some found =>
      refine ensures_perform_bind (M := fun _ => Absent path) ?_ fun now => ?_
      · intro b hb
        exact hb.fades (fades_serve (c := .store .timestamp) trivial b)
      split
      · refine Ensures.bind ?_ fun _ => hnone
        refine ensures_ofExec_bind fun deadline _ => ?_
        split
        · exact ensures_getObject fun _ => ensures_done fun _ _ => rfl
        · exact ensures_perform_bind (M := fun _ _ => True) (fun _ _ => trivial)
            fun _ => ensures_done fun _ _ => rfl
      · refine Ensures.bind ?_ fun _ => hnone
        refine ensures_getObject fun _ => ?_
        exact ensures_perform_bind (M := fun _ _ => True) (fun _ _ => trivial)
          fun _ => ensures_done fun _ _ => rfl
  · exact ensures_done fun _ _ => rfl

theorem ensures_delete : Ensures serveStore (fun _ => True)
    (storage.delete siteId key) fun result b =>
    result = .ok () → ∃ path, (cacheObjectPath siteId key : Exec Empty Str) = .ok path ∧
      Absent path b := by
  unfold CacheStorage.delete
  split
  · refine ensures_ofExec_bind fun path hpath => ?_
    refine Ensures.bind (fun _ _ _ _ _ => trivial) fun _ => ?_
    refine ensures_perform_bind (M := fun r b => r = .ok () → Absent path b) ?_ fun r => ?_
    · intro b _
      unfold serveStore serve
      split
      · exact nofun
      · exact fun _ => AList.lookup_erase _ _
    · cases r with
      | error e => exact ensures_done fun _ _ => nofun
      | ok _ =>
        dsimp only
        split
        · refine ensures_perform_bind (M := fun _ => Absent path) ?_ fun _ => ?_
          · intro b hb
            exact (hb rfl).fades (fades_serve (c := .store (.redisDel _)) trivial b)
          · exact ensures_done fun _ hb _ => ⟨path, hpath, hb⟩
        · exact ensures_done fun _ hb _ => ⟨path, hpath, hb rfl⟩
  · exact ensures_done fun _ _ => nofun

end Backends

end Nozdormu.Admin
