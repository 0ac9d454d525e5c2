import Nozdormu.Cache.Storage

/-!
# Runs of the cache storage

Writes, reads, deletions, background deletions and the passing of time, in any order, with both
stores within reach. Each operation is taken as a whole; the background `DEL` that a read starts is
an event of its own, so it may come late.
-/

namespace Nozdormu.Cache

open Rust Bmff CacheStorage Stores List

/-- A response on its way into the cache. -/
structure Write where
  siteId : Str
  cacheKey : Str
  builtAt : Clock
  status : UInt16
  headers : List (Str × Str)
  ttl : UInt64
  staleWhileRevalidate : UInt64
  tags : List Str
  body : Bytes
deriving DecidableEq, Repr

namespace Write

def metadata (w : Write) : CacheMeta :=
  buildCacheMeta w.builtAt.timestamp w.status w.headers w.ttl (UInt64.ofNat w.body.length)
    w.staleWhileRevalidate w.tags

def path (w : Write) : Exec Empty Str := cacheObjectPath w.siteId w.cacheKey

end Write

def CacheStorage.full : CacheStorage := ⟨true, true⟩

theorem CacheStorage.full_oss : full.oss = true := rfl

inductive CacheEvent where
  | put (w : Write)
  | get (siteId cacheKey : Str)
  | getWithStale (siteId cacheKey : Str)
  | getRange (siteId cacheKey : Str) (start stop : UInt64)
  | delete (siteId cacheKey : Str)
  | deleteMany (siteId : Str) (cacheKeys : List Str)
  | deleteByTag (siteId tag : Str)
  /-- A `DEL` that was started in the background is carried out. -/
  | background (key : Str)
  | advance (later : Clock)

/-- The stores, and what has been written so far, latest first. -/
structure CacheSystem where
  stores : Stores
  writes : List Write

namespace CacheSystem

def after (sys : CacheSystem) {α : Type} (t : StoreTask α) : CacheSystem :=
  { sys with stores := (t.run serve sys.stores).2 }

def step (p : Profile) (sys : CacheSystem) : CacheEvent → CacheSystem
  | .put w =>
    { sys.after (full.put p w.siteId w.cacheKey w.metadata w.body) with
      writes := w :: sys.writes }
  | .get siteId key => sys.after (full.get siteId key)
  | .getWithStale siteId key => sys.after (full.getWithStale p siteId key)
  | .getRange siteId key start stop => sys.after (full.getRange siteId key start stop)
  | .delete siteId key => sys.after (full.delete siteId key)
  | .deleteMany siteId keys => sys.after (full.deleteMany p siteId keys)
  | .deleteByTag siteId tag => sys.after (full.deleteByTag p siteId tag)
  | .background key =>
    if key ∈ sys.stores.spawned then
      { sys with
        stores := { sys.stores.dropEntry key with spawned := sys.stores.spawned.erase key } }
    else sys
  | .advance later =>
    if sys.stores.clock.millis ≤ later.millis then
      { sys with stores := { sys.stores with clock := later } }
    else sys

def run (p : Profile) (events : List CacheEvent) (sys : CacheSystem) : CacheSystem :=
  events.foldl (step p) sys

def empty (clock : Clock) : CacheSystem := ⟨⟨clock, ∅, ∅, []⟩, []⟩

def lastWrite (sys : CacheSystem) (path : Str) : Option Write :=
  sys.writes.find? fun w => w.path = .ok path

end CacheSystem

/-! ## What the calls leave alone -/

def IsTagKey (key : Str) : Prop := ∃ siteId tag, key = tagKey siteId tag

theorem not_isTagKey_metaKey (siteId cacheKey : Str) : ¬ IsTagKey (metaKey siteId cacheKey) := by
  intro h
  obtain ⟨site, tag, h⟩ := h
  have hfifteenth : some 'm' = some 't' := congrArg (fun l : Str => l[15]?) h
  exact absurd hfifteenth (by decide)

/-- Calls that store nothing. -/
def Fading : StoreCall → Prop
  | .redisSetex .. => False
  | .putObject .. => False
  | .redisSadd .. => False
  | .redisSrem key _ => IsTagKey key
  | .redisExpire .. => False
  | .spawnDel key => ¬ IsTagKey key
  | _ => True

variable {key : Str} {c : StoreCall} {s : Stores} {path : Str} {s' : Stores} {α : Type}

namespace Stores

/-- Bodies and metadata may have gone, but none have come or changed. -/
structure Fades (s s' : Stores) : Prop where
  objects : ∀ {path body}, s'.objects.lookup path = some body → s.objects.lookup path = some body
  redis : ∀ {key e}, ¬ IsTagKey key → s'.redis.lookup key = some e → s.redis.lookup key = some e

theorem Fades.refl (s : Stores) : Fades s s := ⟨id, fun _ h => h⟩

theorem Fades.trans {s'' : Stores} (h : Fades s s') (h' : Fades s' s'') : Fades s s'' :=
  ⟨fun hb => h.objects (h'.objects hb), fun hk he => h.redis hk (h'.redis hk he)⟩

theorem lookup_dropEntry {key' : Str} {e : RedisEntry}
    (h : (s.dropEntry key).redis.lookup key' = some e) : s.redis.lookup key' = some e := by
  by_cases hk : key' = key
  · rw [hk, dropEntry, AList.lookup_erase] at h
    cases h
  · rwa [dropEntry, AList.lookup_erase_ne hk] at h

theorem lookup_foldl_erase (path : Str) (paths : List Str) (o : AList fun _ : Str => Bytes) :
    (paths.foldl (fun o path => o.erase path) o).lookup path = if path ∈ paths then none
      else o.lookup path := by
  induction paths generalizing o with
  | nil => rfl
  | cons first paths ih =>
    rw [foldl_cons, ih]
    by_cases hfirst : path = first
    · subst hfirst
      simp
    · rw [AList.lookup_erase_ne hfirst]
      simp [hfirst]

/-- Nothing but the entry of one key has changed. -/
structure OnlyEntry (key : Str) (s s' : Stores) : Prop where
  clock : s'.clock = s.clock
  objects : s'.objects = s.objects
  spawned : s'.spawned = s.spawned
  redis : ∀ key', key' ≠ key → s'.redis.lookup key' = s.redis.lookup key'

theorem onlyEntry_refl (key : Str) (s : Stores) :
    OnlyEntry key s s := ⟨rfl, rfl, rfl, fun _ _ => rfl⟩

theorem onlyEntry_setEntry (key : Str) (s : Stores) (e : RedisEntry) :
    OnlyEntry key s (s.setEntry key e) := ⟨rfl, rfl, rfl, fun _ h => AList.lookup_insert_ne h⟩

theorem onlyEntry_dropEntry (key : Str) (s : Stores) : OnlyEntry key s (s.dropEntry key) :=
  ⟨rfl, rfl, rfl, fun _ h => AList.lookup_erase_ne h⟩

theorem onlyEntry_sadd (s : Stores) (key member : Str) : OnlyEntry key s (s.sadd key member).2 := by
  unfold sadd
  split
  · exact onlyEntry_setEntry ..
  · exact onlyEntry_refl ..
  · exact onlyEntry_setEntry ..

theorem onlyEntry_srem (s : Stores) (key member : Str) : OnlyEntry key s (s.srem key member).2 := by
  unfold srem
  split
  · split
    · exact onlyEntry_dropEntry ..
    · exact onlyEntry_setEntry ..
  · exact onlyEntry_refl ..
  · exact onlyEntry_refl ..

theorem onlyEntry_expire (s : Stores) (key : Str) (seconds : Nat) :
    OnlyEntry key s (s.expire key seconds) := by
  unfold expire
  split
  · exact onlyEntry_setEntry ..
  · exact onlyEntry_refl ..

theorem OnlyEntry.fades (h : OnlyEntry key s s') (hkey : IsTagKey key) : Fades s s' where
  objects := fun hb => h.objects ▸ hb
  redis := by
    intro key' e hk' he
    have hne : key' ≠ key := fun heq => hk' (heq ▸ hkey)
    exact h.redis key' hne ▸ he

/-- Nothing but sets of tags has changed. -/
structure OnlyTags (s s' : Stores) : Prop where
  clock : s'.clock = s.clock
  objects : s'.objects = s.objects
  spawned : s'.spawned = s.spawned
  redis : ∀ key, ¬ IsTagKey key → s'.redis.lookup key = s.redis.lookup key

theorem OnlyTags.refl (s : Stores) : OnlyTags s s := ⟨rfl, rfl, rfl, fun _ _ => rfl⟩

theorem OnlyTags.trans {s'' : Stores} (h : OnlyTags s s') (h' : OnlyTags s' s'') : OnlyTags s s'' :=
  ⟨h'.clock.trans h.clock, h'.objects.trans h.objects, h'.spawned.trans h.spawned,
    fun key hkey => (h'.redis key hkey).trans (h.redis key hkey)⟩

theorem OnlyEntry.onlyTags (h : OnlyEntry key s s') (hkey : IsTagKey key) : OnlyTags s s' :=
  ⟨h.clock, h.objects, h.spawned, fun _ hk' => h.redis _ fun heq => hk' (heq ▸ hkey)⟩

theorem fades_serve (h : Fading c) (s : Stores) : Fades s (serve c s).2 := by
  cases c with
  | redisSetex | putObject | redisSadd | redisExpire => exact absurd h id
  | redisSrem key member => exact (onlyEntry_srem s key member).fades h
  | redisDel key => exact ⟨id, fun _ he => lookup_dropEntry he⟩
  | deleteObject path =>
    refine ⟨fun {path' _} h => ?_, fun _ he => he⟩
    by_cases hp : path' = path
    · subst hp
      cases (AList.lookup_erase _ _).symm.trans h
    · exact (AList.lookup_erase_ne hp).symm.trans h
  | deleteObjects paths =>
    refine ⟨fun h => ?_, fun _ he => he⟩
    rw [serve, lookup_foldl_erase, Option.ite_none_left_eq_some] at h
    exact h.2
  | redisGet | redisSmembers | getObject | getObjectRange | timestamp => exact Fades.refl s
  | spawnDel => exact ⟨id, fun _ he => he⟩

theorem fades_run {t : StoreTask α} (h : t.Only Fading) (s : Stores) : Fades s (t.run serve s).2 :=
  Task.run_keeps (fun _ s' hc hs' => hs'.trans (fades_serve hc s')) h (Fades.refl s)

end Stores

/-! ## What a call spares -/

/-- Calls that leave the body at a path alone. -/
def SparesBody (path : Str) : StoreCall → Prop
  | .putObject path' .. => path' ≠ path
  | .deleteObject path' => path' ≠ path
  | .deleteObjects paths => path ∉ paths
  | _ => True

/-- Calls that leave the entry of a key alone. -/
def SparesEntry (key : Str) : StoreCall → Prop
  | .redisSetex key' .. => key' ≠ key
  | .redisDel key' => key' ≠ key
  | .redisSadd key' _ => key' ≠ key
  | .redisSrem key' _ => key' ≠ key
  | .redisExpire key' _ => key' ≠ key
  | _ => True

namespace Stores

theorem objects_serve (h : SparesBody path c) (s : Stores) :
    (serve c s).2.objects.lookup path = s.objects.lookup path := by
  cases c with
  | putObject path' body contentType => exact AList.lookup_insert_ne (Ne.symm h)
  | deleteObject path' => exact AList.lookup_erase_ne (Ne.symm h)
  | deleteObjects paths => exact (lookup_foldl_erase ..).trans (if_neg h)
  | redisSadd key member => rw [serve, (onlyEntry_sadd s key member).objects]
  | redisSrem key member => rw [serve, (onlyEntry_srem s key member).objects]
  | redisExpire key seconds => rw [serve, (onlyEntry_expire s key seconds).objects]
  | _ => rfl

theorem redis_serve (h : SparesEntry key c) (s : Stores) :
    (serve c s).2.redis.lookup key = s.redis.lookup key := by
  cases c with
  | redisSetex key' seconds value => exact AList.lookup_insert_ne (Ne.symm h)
  | redisDel key' => exact AList.lookup_erase_ne (Ne.symm h)
  | redisSadd key' member => exact (onlyEntry_sadd s key' member).redis key (Ne.symm h)
  | redisSrem key' member => exact (onlyEntry_srem s key' member).redis key (Ne.symm h)
  | redisExpire key' seconds => exact (onlyEntry_expire s key' seconds).redis key (Ne.symm h)
  | _ => rfl

theorem redis_run {t : StoreTask α} (h : t.Only (SparesEntry key)) (s : Stores) :
    (t.run serve s).2.redis.lookup key = s.redis.lookup key :=
  Task.run_keeps (fun _ s' hc hs' => (redis_serve hc s').trans hs') h rfl

theorem clock_serve (c : StoreCall) (s : Stores) : (serve c s).2.clock = s.clock := by
  cases c with
  | redisSadd key member => exact (onlyEntry_sadd s key member).clock
  | redisSrem key member => exact (onlyEntry_srem s key member).clock
  | redisExpire key seconds => exact (onlyEntry_expire s key seconds).clock
  | _ => rfl

theorem clock_run (t : StoreTask α) (s : Stores) : (t.run serve s).2.clock = s.clock := by
  induction t generalizing s with
  | done | crash => rfl
  | call c next ih => exact (ih _ _).trans (clock_serve c s)

end Stores

/-! ## The calls of the functions -/

theorem flatten_toChunks_go (n : Nat) : ∀ (xs : List α) (chunk : Array α) (chunks : Array (List α)),
    (List.toChunks.go n xs chunk chunks).flatten = chunks.toList.flatten ++
    (chunk.toList ++ xs) := by
  intro xs
  induction xs with
  | nil => intro chunk chunks; simp [List.toChunks.go]
  | cons x xs ih =>
    intro chunk chunks
    unfold List.toChunks.go
    split <;> (rw [ih]; simp)

theorem flatten_toChunks (n : Nat) (xs : List α) : (xs.toChunks n).flatten = xs := by
  cases xs with
  | nil => cases n <;> rfl
  | cons x xs =>
    cases n with
    | zero => exact flatten_singleton
    | succ n => exact flatten_toChunks_go (n + 1) xs #[x] #[]

def Reading (siteId key : Str) : StoreCall → Prop
  | .redisGet key' => key' = metaKey siteId key
  | .getObject path => (cacheObjectPath siteId key : Exec Empty Str) = .ok path
  | .getObjectRange path .. => (cacheObjectPath siteId key : Exec Empty Str) = .ok path
  | .timestamp => True
  | .spawnDel key' => key' = metaKey siteId key
  | _ => False

def Deleting (siteId : Str) (keys : List Str) : StoreCall → Prop
  | .redisGet _ => True
  | .redisSrem key member => (∃ tag, key = tagKey siteId tag) ∧ member ∈ keys
  | .redisDel key => ∃ k ∈ keys, key = metaKey siteId k
  | .deleteObject path => ∃ k ∈ keys, (cacheObjectPath siteId k : Exec Empty Str) = .ok path
  | .deleteObjects paths =>
    ∀ path ∈ paths, ∃ k ∈ keys, (cacheObjectPath siteId k : Exec Empty Str) = .ok path
  | _ => False

variable {siteId : Str} {keys : List Str}

theorem Deleting.fading : ∀ {c : StoreCall}, Deleting siteId keys c → Fading c := by
  intro c h
  cases c with
  | redisSrem key member =>
    obtain ⟨⟨tag, htag⟩, -⟩ := h
    exact ⟨siteId, tag, htag⟩
  | redisSetex | redisSadd | redisExpire | putObject | spawnDel => exact absurd h id
  | _ => trivial

theorem Reading.fading (h : Reading siteId key c) : Fading c := by
  cases c with
  | redisGet | getObject | getObjectRange | timestamp => trivial
  | spawnDel key' =>
    obtain rfl : key' = metaKey siteId key := h
    exact not_isTagKey_metaKey siteId key
  | _ => exact absurd h id

theorem Reading.sparesEntry (h : Reading siteId key c) (key' : Str) : SparesEntry key' c := by
  cases c with
  | redisGet | getObject | getObjectRange | timestamp | spawnDel => trivial
  | _ => exact absurd h id

theorem Deleting.sparesBody (h : Deleting siteId keys c)
    (hpath : ∀ k ∈ keys, (cacheObjectPath siteId k : Exec Empty Str) ≠ .ok path) :
      SparesBody path c := by
  cases c with
  | deleteObject path' =>
    obtain ⟨k, hk, hpath'⟩ := h
    intro heq
    exact hpath k hk (heq ▸ hpath')
  | deleteObjects paths =>
    intro hmem
    obtain ⟨k, hk, hpath'⟩ := h path hmem
    exact hpath k hk hpath'
  | putObject => exact absurd h id
  | _ => trivial

theorem Deleting.sparesEntry
    (h : Deleting siteId keys c) (htag : ¬ IsTagKey key)
    (hkey : ∀ k ∈ keys, metaKey siteId k ≠ key) :
    SparesEntry key c := by
  cases c with
  | redisDel key' =>
    obtain ⟨k, hk, rfl⟩ := h
    exact hkey k hk
  | redisSrem key' member =>
    obtain ⟨⟨tag, rfl⟩, -⟩ := h
    exact fun heq => htag ⟨siteId, tag, heq.symm⟩
  | redisSetex | redisSadd | redisExpire => exact absurd h id
  | _ => trivial

section Calls

open Task

variable {self : CacheStorage}

theorem only_readMeta {P : StoreCall → Prop} (h : P (.redisGet key)) :
    (self.readMeta key).Only P := by
  unfold readMeta
  split
  · exact only_perform_bind h fun _ => trivial
  · trivial

section Reads

variable {siteId key path : Str} (hpath : (cacheObjectPath siteId key : Exec Empty Str) = .ok path)

include hpath

theorem only_readWithoutMeta : (readWithoutMeta path).Only (Reading siteId key) := by
  refine only_perform_bind hpath fun answer => ?_
  cases answer with
  | error e => trivial
  | ok body => exact only_perform_bind trivial fun _ => trivial

theorem only_readFresh (found : CacheMeta) :
    (readFresh (metaKey siteId key) path found).Only (Reading siteId key) := by
  refine only_perform_bind hpath fun answer => ?_
  cases answer with
  | error e => exact only_perform_bind rfl fun _ => trivial
  | ok body => trivial

theorem only_readExpired (p : Profile) (found : CacheMeta) (now : Int) :
    (readExpired p (metaKey siteId key) path found now).Only (Reading siteId key) := by
  refine (only_ofExec _).bind fun deadline => ?_
  split
  · refine only_perform_bind hpath fun answer => ?_
    cases answer <;> trivial
  · exact only_perform_bind rfl fun _ => trivial

end Reads

theorem only_withEntry {read : (path : Str) → Option CacheMeta → StoreTask (Option α)}
    (h : ∀ path found, (cacheObjectPath siteId key : Exec Empty Str) = .ok path →
      (read path found).Only (Reading siteId key)) :
    (self.withEntry siteId key read).Only (Reading siteId key) := by
  unfold withEntry
  split
  · have hmeta : (self.readMeta (metaKey siteId key)).Only (Reading siteId key) := only_readMeta rfl
    exact only_ofExec_bind fun path hpath => hmeta.bind fun found => h path found hpath
  · trivial

variable (siteId key : Str)

theorem only_get : (self.get siteId key).Only (Reading siteId key) := by
  refine only_withEntry fun path found hpath => ?_
  cases found with
  | none => exact only_readWithoutMeta hpath
  | some found =>
    refine only_perform_bind trivial fun now => ?_
    split
    · exact only_perform_bind rfl fun _ => trivial
    · exact only_readFresh hpath found

variable (p : Profile)

theorem only_getWithStale : (self.getWithStale p siteId key).Only (Reading siteId key) := by
  refine only_withEntry fun path found hpath => ?_
  cases found with
  | none => exact (only_readWithoutMeta hpath).map _
  | some found =>
    refine only_perform_bind trivial fun now => ?_
    split
    · exact (only_readExpired hpath p found now).map _
    · exact (only_readFresh hpath found).map _

theorem only_getRange (start stop : UInt64) :
    (self.getRange siteId key start stop).Only (Reading siteId key) := by
  refine only_withEntry fun path found hpath => ?_
  cases found with
  | none => trivial
  | some found =>
    refine only_perform_bind trivial fun now => ?_
    split
    · trivial
    · refine only_perform_bind hpath fun answer => ?_
      cases answer <;> trivial

theorem only_delete : (self.delete siteId key).Only (Deleting siteId [key]) := by
  have htags : (self.removeTags siteId key).Only (Deleting siteId [key]) := by
    refine (only_readMeta trivial).bind fun found => ?_
    cases found with
    | none => trivial
    | some found =>
      exact only_forM fun tag _ =>
        only_perform_bind ⟨⟨tag, rfl⟩, mem_singleton_self key⟩ fun _ => trivial
  unfold delete
  split
  · refine only_ofExec_bind fun path hpath => htags.bind fun _ => ?_
    refine only_perform_bind ⟨key, mem_singleton_self key, hpath⟩ fun answer => ?_
    cases answer with
    | error e => trivial
    | ok _ =>
      dsimp only
      split
      · exact only_perform_bind ⟨key, mem_singleton_self key, rfl⟩ fun _ => trivial
      · trivial
  · trivial

theorem only_deleteObjectsBatch {P : StoreCall → Prop} : ∀ {chunks : List (List Str)}
    {total : Nat}, (∀ chunk ∈ chunks, P (.deleteObjects chunk)) →
    (deleteObjectsBatch p chunks total).Only P := by
  intro chunks
  induction chunks with
  | nil => intro total _; trivial
  | cons chunk chunks ih =>
    intro total h
    refine only_perform_bind (h chunk mem_cons_self) fun answer => ?_
    cases answer with
    | error e => trivial
    | ok count =>
      exact (only_ofExec _).bind fun total => ih fun chunk hchunk =>
        h chunk (mem_cons_of_mem _ hchunk)

theorem only_deleteMany (siteId : Str) (keys : List Str) :
    (self.deleteMany p siteId keys).Only fun c =>
      Deleting siteId keys c ∧ ∀ key, IsTagKey key → SparesEntry key c := by
  unfold deleteMany
  split
  · trivial
  have hbodies : (self.deleteBodies p siteId keys).Only fun c =>
      Deleting siteId keys c ∧ ∀ key, IsTagKey key → SparesEntry key c := by
    unfold deleteBodies
    split
    · refine only_ofExec_bind fun paths hpaths => only_deleteObjectsBatch p ?_
      intro chunk hchunk
      refine ⟨fun path hpath => ?_, fun _ _ => trivial⟩
      rw [← flatten_toChunks 1000 paths] at hpaths
      exact (mem_iff_of_mapM hpaths).1 (mem_flatten.2 ⟨chunk, hchunk, hpath⟩)
    · trivial
  have hmetas : (deleteMetas siteId keys).Only fun c =>
      Deleting siteId keys c ∧ ∀ key, IsTagKey key → SparesEntry key c := by
    refine only_forM fun key hkey => only_perform_bind ⟨⟨key, hkey, rfl⟩, fun tagged htag heq => ?_⟩
      fun _ => trivial
    exact not_isTagKey_metaKey siteId key (heq ▸ htag)
  refine hbodies.bind fun batch => ?_
  cases batch with
  | error e => trivial
  | ok deleted =>
    dsimp only
    split
    · exact hmetas.map fun _ => Except.ok deleted
    · trivial

theorem only_deleteByTag (siteId tag : Str) : (self.deleteByTag p siteId tag).Only fun c =>
      Fading c ∧ ∀ key, IsTagKey key → key ≠ tagKey siteId tag → SparesEntry key c := by
  unfold deleteByTag
  split
  · refine only_perform_bind ⟨trivial, fun _ _ _ => trivial⟩ fun answer => ?_
    cases answer with
    | error e => trivial
    | ok keys =>
      dsimp only
      split
      · trivial
      refine ((only_deleteMany p siteId keys).mono fun c hc => ?_).bind fun deleted => ?_
      · exact ⟨hc.1.fading, fun key hkey _ => hc.2 key hkey⟩
      · cases deleted with
        | error e => trivial
        | ok count => exact only_perform_bind ⟨trivial, fun _ _ hne => Ne.symm hne⟩ fun _ => trivial
  · trivial

theorem run_putTags (ttl : Nat) (tags : List Str) (s : Stores) :
    ∃ s', (putTags siteId key ttl tags).run serve s = (.ok ⟨⟩, s') ∧
      s.OnlyTags s' := by
  induction tags generalizing s with
  | nil => exact ⟨s, rfl, .refl s⟩
  | cons tag tags ih =>
    have hkey : IsTagKey (tagKey siteId tag) := ⟨siteId, tag, rfl⟩
    have hadd := (s.onlyEntry_sadd (tagKey siteId tag) key).onlyTags hkey
    have hexpire := ((s.sadd (tagKey siteId tag) key).2.onlyEntry_expire (tagKey siteId tag)
      (ttl + 3600)).onlyTags hkey
    obtain ⟨s', hrun, hsame⟩ :=
      ih ((s.sadd (tagKey siteId tag) key).2.expire (tagKey siteId tag) (ttl + 3600))
    exact ⟨s', hrun, (hadd.trans hexpire).trans hsame⟩

/-- The tags in the metadata of an entry. -/
def storedTags (s : Stores) (siteId key : Str) : List Str :=
  ((s.metaOf (metaKey siteId key)).map (·.tags)).getD []

theorem run_removeTags (s : Stores) :
    ∃ s', (full.removeTags siteId key).run serve s = (.ok ⟨⟩, s') ∧ s.OnlyTags s' ∧
      ∀ key', (∀ tag ∈ storedTags s siteId key, tagKey siteId tag ≠ key') →
        s'.redis.lookup key' = s.redis.lookup key' := by
  have htags : ∀ (tags : List Str) s, ∃ s',
      (tags.forM fun tag => (do let _ ← Redis.srem (tagKey siteId tag) key : StoreTask PUnit)).run
        serve s = (.ok ⟨⟩, s') ∧ s.OnlyTags s' ∧
      ∀ key', (∀ tag ∈ tags, tagKey siteId tag ≠ key') →
        s'.redis.lookup key' = s.redis.lookup key' := by
    intro tags
    induction tags with
    | nil => intro s; exact ⟨s, rfl, .refl s, fun _ _ => rfl⟩
    | cons tag tags ih =>
      intro s
      have hremove := s.onlyEntry_srem (tagKey siteId tag) key
      obtain ⟨s', hrun, hsame, hredis⟩ := ih (s.srem (tagKey siteId tag) key).2
      refine ⟨s', hrun, (hremove.onlyTags ⟨siteId, tag, rfl⟩).trans hsame, fun key' hkey' => ?_⟩
      obtain ⟨hfirst, hrest⟩ := forall_mem_cons.1 hkey'
      exact (hredis key' hrest).trans (hremove.redis key' (Ne.symm hfirst))
  have hread : (full.readMeta (metaKey siteId key)).run serve s
      = (.ok (s.metaOf (metaKey siteId key)), s) := rfl
  unfold removeTags
  rw [Task.run_bind_of_ok hread]
  unfold storedTags
  cases s.metaOf (metaKey siteId key) with
  | none => exact ⟨s, rfl, .refl s, fun _ _ => rfl⟩
  | some found => exact htags found.tags s

end Calls

/-! ## Reads of the same entry -/

/-- What a read of an entry can see is the same. -/
structure Stores.SameEntry (siteId key : Str) (s s' : Stores) : Prop where
  clock : s'.clock = s.clock
  redis : s'.redis.lookup (metaKey siteId key) = s.redis.lookup (metaKey siteId key)
  body : ∀ path, (cacheObjectPath siteId key : Exec Empty Str) = .ok path →
    s'.objects.lookup path = s.objects.lookup path

theorem Stores.SameEntry.refl (siteId key : Str) (s : Stores) : SameEntry siteId key s s :=
  ⟨rfl, rfl, fun _ _ => rfl⟩

theorem Stores.SameEntry.trans {s'' : Stores} (h : SameEntry siteId key s s')
    (h' : SameEntry siteId key s' s'') : SameEntry siteId key s s'' :=
  ⟨h'.clock.trans h.clock, h'.redis.trans h.redis,
    fun path hpath => (h'.body path hpath).trans (h.body path hpath)⟩

theorem Stores.SameEntry.serve (hc : Reading siteId key c)
    (h : SameEntry siteId key s s') : (serve c s).1 = (serve c s').1 ∧
      SameEntry siteId key (serve c s).2 (serve c s').2 := by
  cases c with
  | redisGet key' =>
    obtain rfl : key' = metaKey siteId key := hc
    refine ⟨?_, h⟩
    show getAnswer (s.live _) = getAnswer (s'.live _)
    unfold live
    rw [h.clock, h.redis]
  | getObject path =>
    refine ⟨?_, h⟩
    show objectAnswer _ = objectAnswer _
    rw [h.body path hc]
  | getObjectRange path start stop =>
    refine ⟨?_, h⟩
    show rangeAnswer _ _ _ = rangeAnswer _ _ _
    rw [h.body path hc]
  | timestamp =>
    refine ⟨?_, h⟩
    show s.clock.timestamp = s'.clock.timestamp
    rw [h.clock]
  | spawnDel key' => exact ⟨rfl, h.clock, h.redis, h.body⟩
  | _ => exact absurd hc id

theorem Stores.SameEntry.read {t : StoreTask α} (ht : t.Only (Reading siteId key))
    (h : SameEntry siteId key s s') :
    (t.run Stores.serve s).1 = (t.run Stores.serve s').1 :=
  Task.run_agree (fun _ _ _ hc hs => hs.serve hc) ht h

theorem timestamp_nonneg (c : Clock) : 0 ≤ c.timestamp := Int.natCast_nonneg _

theorem timestamp_lt (c : Clock) : c.timestamp < 2 ^ 63 := by
  have h := c.bound
  unfold Clock.timestamp
  omega

variable (w : Write)

theorem Write.expiresAt_nonneg : 0 ≤ w.metadata.expiresAt := by
  have h := timestamp_nonneg w.builtAt
  show 0 ≤ saturatingAdd64 w.builtAt.timestamp (min w.ttl.toNat maxTtl : Nat)
  unfold saturatingAdd64
  omega

theorem Write.expiresAt_lt : w.metadata.expiresAt < 2 ^ 63 := by
  show saturatingAdd64 w.builtAt.timestamp (min w.ttl.toNat maxTtl : Nat) < 2 ^ 63
  unfold saturatingAdd64
  omega

def Write.redisTtl (now : Clock) : Nat :=
  (max 1 (min (w.metadata.expiresAt - now.timestamp) maxRedisTtl)).toNat

def Write.entry (now : Clock) : RedisEntry :=
  ⟨.record w.metadata, some (now.millis + 1000 * w.redisTtl now)⟩

variable (p : Profile)

theorem run_put_fault {w : Write} {stop : Stop Empty} (hpath : w.path = .error stop) (s : Stores) :
    ((full.put p w.siteId w.cacheKey w.metadata w.body).run serve s).2 = s := by
  have herror : (cacheObjectPath w.siteId w.cacheKey : Exec Empty Str) = .error stop := hpath
  unfold put
  rw [if_pos full_oss, herror]
  cases stop with
  | err e => cases e
  | fault f => rfl

def Stores.stored (s : Stores) (w : Write) (path : Str) : Stores :=
  setEntry { s with objects := s.objects.insert path w.body } (metaKey w.siteId w.cacheKey)
    (w.entry s.clock)

theorem run_put_eq {w : Write} (hpath : w.path = .ok path) (s : Stores) :
    (full.put p w.siteId w.cacheKey w.metadata w.body).run serve s
      = (.ok (.ok ()), ((putTags w.siteId w.cacheKey (w.redisTtl s.clock) w.tags).run
          serve (s.stored w path)).2) := by
  have hnow := timestamp_nonneg s.clock
  have hnow' := timestamp_lt s.clock
  have hexp := w.expiresAt_nonneg
  have hexp' := w.expiresAt_lt
  have hleft : (p.signed 64 (w.metadata.expiresAt - s.clock.timestamp) : Exec Empty Int)
      = .ok (w.metadata.expiresAt - s.clock.timestamp) := signed_ok p (by omega)
  have hok : (cacheObjectPath w.siteId w.cacheKey : Exec Empty Str) = .ok path := hpath
  obtain ⟨s', hrun, -⟩ := run_putTags w.siteId w.cacheKey (w.redisTtl s.clock) w.tags
    (s.stored w path)
  rw [hrun]
  unfold put
  rw [if_pos full_oss, hok]
  show ((Task.ofExec (p.signed 64 (w.metadata.expiresAt - s.clock.timestamp)) >>= _).run _
    { s with objects := s.objects.insert path w.body }) = _
  rw [hleft]
  exact Task.run_bind_of_ok hrun

theorem run_put {w : Write} (hpath : w.path = .ok path) (s : Stores) :
    ∃ s', (full.put p w.siteId w.cacheKey w.metadata w.body).run serve s = (.ok (.ok ()), s') ∧
      s'.clock = s.clock ∧ s'.objects = s.objects.insert path w.body ∧
      s'.redis.lookup (metaKey w.siteId w.cacheKey) = some (w.entry s.clock) ∧
      ∀ key, ¬ IsTagKey key → key ≠ metaKey w.siteId w.cacheKey →
        s'.redis.lookup key = s.redis.lookup key := by
  obtain ⟨s', hrun, hsame⟩ := run_putTags w.siteId w.cacheKey (w.redisTtl s.clock) w.tags
    (s.stored w path)
  refine ⟨s', ?_, hsame.clock, hsame.objects, ?_, ?_⟩
  · rw [run_put_eq p hpath, hrun]
  · rw [hsame.redis _ (not_isTagKey_metaKey _ _)]
    exact AList.lookup_insert _
  · intro key hkey hne
    rw [hsame.redis key hkey]
    exact AList.lookup_insert_ne hne

theorem run_delete (hpath : (cacheObjectPath siteId key : Exec Empty Str) = .ok path) (s : Stores) :
    ∃ s', (full.delete siteId key).run serve s = (.ok (.ok ()), s') ∧
      s'.clock = s.clock ∧ s'.objects = s.objects.erase path ∧
      s'.redis.lookup (metaKey siteId key) = none ∧
      ∀ key', (∀ tag ∈ storedTags s siteId key, tagKey siteId tag ≠ key') →
        key' ≠ metaKey siteId key → s'.redis.lookup key' = s.redis.lookup key' := by
  obtain ⟨s₁, hrun, hsame, hredis⟩ := run_removeTags siteId key s
  let erased : Stores := { s₁ with objects := s₁.objects.erase path }
  refine ⟨erased.dropEntry (metaKey siteId key), ?_, hsame.clock,
    congrArg (fun o : AList fun _ : Str => Bytes => o.erase path) hsame.objects, ?_, ?_⟩
  · unfold delete
    rw [if_pos full_oss, hpath]
    exact Task.run_bind_of_ok hrun
  · exact AList.lookup_erase _ _
  · intro key' hkey' hne
    rw [← hredis key' hkey']
    exact AList.lookup_erase_ne hne

theorem run_deleteObjectsBatch : ∀ (chunks : List (List Str)) (s : Stores),
    (deleteObjectsBatch p chunks 0).run serve s
      = (.ok (.ok 0),
        { s with objects := chunks.flatten.foldl (fun o path => o.erase path) s.objects }) := by
  intro chunks
  induction chunks with
  | nil => intro s; rfl
  | cons chunk chunks ih =>
    intro s
    show (Task.ofExec (p.add 32 0 0) >>= _ : StoreTask _).run serve
      { s with objects := chunk.foldl (fun o path => o.erase path) s.objects } = _
    show (deleteObjectsBatch p chunks 0).run serve _ = _
    rw [ih, flatten_cons, foldl_append]

theorem run_deleteMetas (siteId : Str) : ∀ (keys : List Str) (s : Stores),
    ∃ s', (deleteMetas siteId keys).run serve s = (.ok ⟨⟩, s') ∧
      s'.clock = s.clock ∧ s'.objects = s.objects ∧
      ∀ key e, s'.redis.lookup key = some e → s.redis.lookup key = some e ∧ ∀ k ∈ keys,
        key ≠ metaKey siteId k := by
  intro keys
  induction keys with
  | nil => intro s; exact ⟨s, rfl, rfl, rfl, fun key e h => ⟨h, fun _ => nofun⟩⟩
  | cons first keys ih =>
    intro s
    obtain ⟨s', hrun, hclock, hobjects, hredis⟩ := ih (s.dropEntry (metaKey siteId first))
    refine ⟨s', hrun, hclock, hobjects, fun key e he => ?_⟩
    obtain ⟨hdropped, hne⟩ := hredis key e he
    refine ⟨lookup_dropEntry hdropped, forall_mem_cons.2 ⟨fun heq => ?_, hne⟩⟩
    rw [heq, dropEntry, AList.lookup_erase] at hdropped
    cases hdropped

theorem deleteMany_of_fault {self : CacheStorage} (hoss : self.oss = true) {k : Str}
    (hk : k ∈ keys) (hpath : ∀ path, (cacheObjectPath siteId k : Exec Empty Str) ≠ .ok path) :
    ∃ f, self.deleteMany p siteId keys = .crash f := by
  cases hpaths : keys.mapM fun key => cacheObjectPath siteId key with
  | ok paths =>
    obtain ⟨path, -, hok⟩ := mem_of_mapM_ok hpaths hk
    exact absurd hok (hpath path)
  | error stop =>
    cases stop with
    | err e => cases e
    | fault f =>
      refine ⟨f, ?_⟩
      unfold deleteMany deleteBodies
      rw [if_pos hoss, hpaths, if_neg (by simpa using ne_nil_of_mem hk)]
      rfl

theorem run_deleteMany {paths : List Str}
    (hpaths : (keys.mapM fun key => (cacheObjectPath siteId key : Exec Empty Str)) = .ok paths)
    (s : Stores) :
    ∃ s', (full.deleteMany p siteId keys).run serve s = (.ok (.ok 0), s') ∧
      s'.clock = s.clock ∧ s'.objects = paths.foldl (fun o path => o.erase path) s.objects ∧
      ∀ k ∈ keys, s'.redis.lookup (metaKey siteId k) = none := by
  unfold deleteMany
  cases keys with
  | nil =>
    obtain rfl : [] = paths := Except.ok.inj hpaths
    exact ⟨s, rfl, rfl, rfl, fun _ => nofun⟩
  | cons key keys =>
    have hbodies : (full.deleteBodies p siteId (key :: keys)).run serve s
        = (.ok (.ok 0), { s with objects := paths.foldl (fun o path => o.erase path) s.objects }) :=
          by
      unfold deleteBodies
      rw [if_pos full_oss, hpaths]
      show (deleteObjectsBatch p (paths.toChunks 1000) 0).run serve s = _
      rw [run_deleteObjectsBatch, flatten_toChunks]
    obtain ⟨s', hmetas, hclock, hobjects, hredis⟩ := run_deleteMetas siteId (key :: keys)
      { s with objects := paths.foldl (fun o path => o.erase path) s.objects }
    refine ⟨s', ?_, hclock, hobjects, fun k hk => ?_⟩
    · rw [isEmpty_cons, if_neg Bool.false_ne_true, Task.run_bind_of_ok hbodies]
      exact Task.run_bind_of_ok hmetas
    · rw [Option.eq_none_iff_forall_ne_some]
      intro e he
      exact (hredis _ e he).2 k hk rfl

end Nozdormu.Cache
