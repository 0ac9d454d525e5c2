import Nozdormu.Admin.SitePurge
import Nozdormu.Cache.TagIndex

/-!
# Purges and other sites
-/

namespace Nozdormu.Admin

open Rust Bmff Cache Proxy Data Backends CacheSystem CacheStorage List

/-- An MD5 digest as `format!("{:x}")` writes it. -/
def IsDigest (key : Str) : Prop := key.length = 32 ∧ ∀ c ∈ key, c ∈ hexChars

instance (key : Str) : Decidable (IsDigest key) :=
  decidable_of_iff (key.length = 32 ∧ key.all (hexChars.contains ·) = true) (by simp [IsDigest])

variable {key : Str}

theorem IsDigest.colon_free (h : IsDigest key) : ':' ∉ key := by
  intro hmem
  have hdigit : ':' ∉ hexChars := by decide
  exact hdigit (h.2 _ hmem)

theorem byteLen_of_digits {s : Str} (h : ∀ c ∈ s, c ∈ hexChars) : byteLen s = s.length := by
  have hall : hexChars.all (·.utf8Size == 1) = true := by decide
  have hone : ∀ c ∈ hexChars, c.utf8Size = 1 := fun c hc => eq_of_beq (all_eq_true.1 hall c hc)
  induction s with
  | nil => rfl
  | cons c s ih =>
    rw [byteLen_cons, hone c (h c mem_cons_self), ih fun c hc => h c (mem_cons_of_mem _ hc),
      length_cons, Nat.add_comm]

theorem exists_cacheObjectPath_iff (siteId : Str) (hlen : 2 ≤ byteLen key) :
    (∃ path, (cacheObjectPath siteId key : Exec Empty Str) = .ok path) ↔ CharBoundary key 2 := by
  have hslice : ReturnsIff (cacheObjectPath siteId key : Exec Empty Str) (CharBoundary key 2) := by
    unfold cacheObjectPath keyPrefix
    rw [if_pos hlen]
    exact (returnsIff_strPrefix key 2).map _
  exact hslice.returns_iff

theorem IsDigest.path (h : IsDigest key) (siteId : Str) :
    ∃ path, (cacheObjectPath siteId key : Exec Empty Str) = .ok path := by
  have hlen := byteLen_of_digits h.2
  rw [h.1] at hlen
  refine (exists_cacheObjectPath_iff siteId (by omega)).2 ⟨2, ?_⟩
  rw [byteLen_of_digits fun c hc => h.2 c (mem_of_mem_take hc), length_take, h.1]
  rfl

theorem slash_free_of_valid {siteId : Str} (h : validateSiteId siteId = .ok ()) : '/' ∉ siteId :=
  not_mem_of_strContains (plain_of_valid h).1

theorem path_of_valid {siteId key path : Str} (h : validateSiteId siteId = .ok ())
    (hpath : (cacheObjectPath siteId key : Exec Empty Str) = .ok path) :
    ∃ rest, path = "cache/" ++ (siteId ++ '/' :: rest) := by
  obtain ⟨pre, -, hpath⟩ := bind_eq_ok.1 hpath
  refine ⟨pre ++ "/" ++ key, ?_⟩
  rw [← Except.ok.inj hpath, safeSiteId_of_valid h]
  simp

theorem path_ne_of_valid {siteId other : Str} (hsite : validateSiteId siteId = .ok ())
    (hother : validateSiteId other = .ok ()) (hne : siteId ≠ other) {k key path : Str}
    (hpath : (cacheObjectPath siteId k : Exec Empty Str) = .ok path) :
    (cacheObjectPath other key : Exec Empty Str) ≠ .ok path := by
  intro hpath'
  obtain ⟨rest, hrest⟩ := path_of_valid hsite hpath
  obtain ⟨rest', hrest'⟩ := path_of_valid hother hpath'
  have heq := append_cancel_left (hrest.symm.trans hrest')
  exact hne (append_cons_inj (slash_free_of_valid hsite) (slash_free_of_valid hother) heq).1

theorem metaKey_eq (siteId key : Str) :
    metaKey siteId key = "nozdormu:cache:meta:" ++ (siteId ++ ':' :: key) := by
  unfold metaKey
  rw [append_assoc, append_assoc]
  rfl

/-- Metadata of different sites under one key: the id of the one goes on in the key of the other. -/
theorem metaKey_eq_cases {siteId other k key : Str} (hkey : ':' ∉ key) (hne : siteId ≠ other)
    (h : metaKey siteId k = metaKey other key) :
    ∃ rest, other = siteId ++ ':' :: rest ∧ k = rest ++ ':' :: key := by
  rw [metaKey_eq, metaKey_eq] at h
  rcases append_cons_cases_right hkey (append_cancel_left h) with ⟨hsame, -⟩ | hlonger
  · exact absurd hsame.symm hne
  · exact hlonger

/-! ## What a purge spares -/

/-- Calls that leave an entry alone. -/
def Spares (siteId key : Str) (c : StoreCall) : Prop :=
  SparesEntry (metaKey siteId key) c ∧
    ∀ path, (cacheObjectPath siteId key : Exec Empty Str) = .ok path → SparesBody path c

namespace Backends

/-- The entry is as it was in `s`. -/
def Keeps (siteId key : Str) (s : Stores) (b : Backends) : Prop := s.SameEntry siteId key b.stores

variable {siteId key : Str} {s : Stores} {c : StoreCall} {b : Backends}

theorem keeps_store (hc : Spares siteId key c) (h : Keeps siteId key s b) :
    Keeps siteId key s (serveStore c b).2 := by
  have hobjects := fun path hpath => objects_serve (c := .store c) (hc.2 path hpath) b
  unfold Keeps serveStore
  rcases stores_serve c b with hstores | hstores
  · rwa [hstores]
  · rw [hstores] at hobjects ⊢
    refine h.trans ⟨Stores.clock_serve _ b.stores, Stores.redis_serve ?_ b.stores, hobjects⟩
    cases c with
    | _ => exact hc.1

theorem keeps_run {α : Type} {t : StoreTask α} (ht : t.Only (Spares siteId key))
    (h : Keeps siteId key s b) :
    Keeps siteId key s (t.run serveStore b).2 :=
  Task.run_keeps (fun c _ hc hb => keeps_store (c := c) hc hb) ht h

theorem keeps_timestamp (h : Keeps siteId key s b) :
    Keeps siteId key s ((onStores timestamp).run serve b).2 := by
  exact keeps_store ⟨trivial, fun _ _ => trivial⟩ h

end Backends

/-- The reads of an entry of `other` while `siteId` is purged. -/
structure Neighbours (siteId other key : Str) : Prop where
  valid : validateSiteId siteId = .ok ()
  valid' : validateSiteId other = .ok ()
  ne : siteId ≠ other
  digest : IsDigest key

namespace Neighbours

variable {siteId other key : Str} (h : Neighbours siteId other key)

include h

theorem spares {keys : List Str} (hkeys : ∀ k ∈ keys, metaKey siteId k ≠ metaKey other key)
    {c : StoreCall} (hc : Deleting siteId keys c) : Spares other key c :=
  ⟨hc.sparesEntry (not_isTagKey_metaKey _ _) hkeys,
    fun _ hpath => hc.sparesBody fun _ _ hk => path_ne_of_valid h.valid h.valid' h.ne hk hpath⟩

theorem metaKey_ne {k : Str} (hk : ':' ∉ k) : metaKey siteId k ≠ metaKey other key := by
  intro heq
  obtain ⟨rest, -, rfl⟩ := metaKey_eq_cases h.digest.colon_free h.ne heq
  exact hk (mem_append_cons_self)

variable {s : Stores} {b : Backends} (hb : Keeps other key s b) {storage : CacheStorage}

include hb

theorem keeps_deleteMany (p : Profile) (hoss : storage.oss = true) {keys : List Str}
    (hkeys : ∀ k ∈ keys, metaKey siteId k = metaKey other key →
      ∀ path, (cacheObjectPath siteId k : Exec Empty Str) ≠ .ok path) :
    Keeps other key s ((storage.deleteMany p siteId keys).run serveStore b).2 := by
  by_cases hhit : ∃ k ∈ keys, metaKey siteId k = metaKey other key
  · obtain ⟨k, hk, heq⟩ := hhit
    obtain ⟨f, hcrash⟩ := deleteMany_of_fault p hoss hk (hkeys k hk heq)
    rw [hcrash]
    exact hb
  · refine keeps_run ((only_deleteMany p siteId keys).mono fun c hc =>
      h.spares (fun k hk heq => ?_) hc.1) hb
    exact hhit ⟨k, hk, heq⟩

theorem keeps_deleteByTag (p : Profile) (hoss : storage.oss = true) {tag : Str}
    (hmembers : ∀ keys, (serveStore (.redisSmembers (tagKey siteId tag)) b).1 = .ok keys →
      ∀ k ∈ keys, ':' ∉ k) :
    Keeps other key s ((storage.deleteByTag p siteId tag).run serveStore b).2 := by
  unfold deleteByTag
  split
  · have hb' : Keeps other key s (serveStore (.redisSmembers (tagKey siteId tag)) b).2 :=
      keeps_store ⟨trivial, fun _ _ => trivial⟩ hb
    rw [Task.perform_bind, Task.run_call]
    cases hanswer : (serveStore (.redisSmembers (tagKey siteId tag)) b).1 with
    | error e => exact hb'
    | ok keys =>
      dsimp only
      split
      · exact hb'
      refine Task.run_bind_keeps (h.keeps_deleteMany hb' p hoss fun k hk heq => ?_)
        fun deleted b'' _ hb'' => ?_
      · exact absurd heq (h.metaKey_ne (hmembers keys hanswer k hk))
      cases deleted with
      | error e => exact hb''
      | ok count =>
        have hne : tagKey siteId tag ≠ metaKey other key :=
          fun heq => not_isTagKey_metaKey other key ⟨siteId, tag, heq.symm⟩
        exact keeps_store ⟨hne, fun _ _ => trivial⟩ hb''
  · exact hb

end Neighbours

/-- The site purge of `siteId` finds metadata of `other` and does not panic on it. -/
def Exposed (siteId other : Str) : Prop :=
  ∃ rest key, other = siteId ++ ':' :: rest ∧ IsDigest key ∧
    glob (strBytes (sitePrefix siteId ++ "*")) (strBytes (metaKey other key)) = true ∧
    CharBoundary (rest ++ ':' :: key) 2

namespace Backends

theorem serve_listObjects (begins : Str) (n : Nat) (b : Backends) :
    (serve (.listObjects begins n) b).2.stores = b.stores ∧
      ∀ paths, (serve (.listObjects begins n) b).1 = .ok paths → ∀ path ∈ paths, ∃ rest,
        path = begins ++ rest := by
  unfold serve
  split
  · exact ⟨rfl, fun _ => nofun⟩
  refine ⟨rfl, fun paths hpaths path hpath => ?_⟩
  cases hpaths
  have hlisted := (mem_filter.1 (mem_of_mem_take hpath)).2
  obtain ⟨rest, hrest⟩ := Option.isSome_iff_exists.1 hlisted
  exact ⟨rest, stripStart_eq_some_iff.1 hrest⟩

end Backends

theorem two_le_byteLen (rest : Str) (h : IsDigest key) : 2 ≤ byteLen (rest ++ ':' :: key) := by
  have hkey := byteLen_of_digits h.2
  rw [h.1] at hkey
  unfold byteLen at hkey ⊢
  rw [map_append, sum_append, map_cons, sum_cons, hkey]
  omega

namespace Neighbours

variable {siteId other key : Str} (h : Neighbours siteId other key) {s : Stores} {b : Backends}
  (hb : Keeps other key s b) (p : Profile)

include h hb

theorem keeps_deleteSiteOssOnly (storage : CacheStorage) :
    Keeps other key s ((deleteSiteOssOnly p storage siteId).run serve b).2 := by
  unfold deleteSiteOssOnly
  split
  · rw [Task.perform_bind, Task.run_call]
    obtain ⟨hstores, hpaths⟩ := serve_listObjects ("cache/" ++ siteId ++ "/") maxKeys b
    have hb' : Keeps other key s
        (serve (.listObjects ("cache/" ++ siteId ++ "/") maxKeys) b).2 := by
      unfold Keeps
      rwa [hstores]
    cases hanswer : (serve (.listObjects ("cache/" ++ siteId ++ "/") maxKeys) b).1 with
    | error e => exact hb'
    | ok paths =>
      dsimp only
      split
      · exact hb'
      refine Task.run_bind_keeps ?_ fun deleted b'' _ hb'' => ?_
      · rw [run_onStores_eq]
        refine keeps_run (only_deleteObjectsBatch p fun chunk hchunk =>
          ⟨trivial, fun path hpath hmem => ?_⟩) hb'
        have hin : path ∈ paths := by
          rw [← flatten_toChunks 1000 paths]
          exact mem_flatten.2 ⟨chunk, hchunk, hmem⟩
        obtain ⟨rest, hrest⟩ := hpaths paths hanswer path hin
        obtain ⟨rest', hrest'⟩ := path_of_valid h.valid' hpath
        rw [hrest', append_assoc, append_assoc] at hrest
        have heq := append_cancel_left hrest
        exact h.ne (append_cons_inj (slash_free_of_valid h.valid')
          (slash_free_of_valid h.valid) heq).1.symm
      · cases deleted <;> exact hb''
  · exact hb

theorem keeps_purgeSiteInner (state : AdminState) (hoss : state.storage.oss = true)
    (hexposed : ¬ Exposed siteId other) :
    Keeps other key s ((purgeSiteInner p state siteId).run serve b).2 := by
  by_cases hfinds : ScanFinds state siteId b
  · obtain ⟨keys, hkeys, hrun⟩ := run_purgeSiteInner_of_found hfinds
    rw [hrun, run_onStores_eq]
    refine h.keeps_deleteMany (b := { b with outages := b.outages.tail }) hb p hoss
      fun k hk heq path hpath => hexposed ?_
    obtain ⟨rest, hother, rfl⟩ := metaKey_eq_cases h.digest.colon_free h.ne heq
    refine ⟨rest, key, hother, h.digest, ?_, ?_⟩
    · rw [← heq]
      exact (Bool.and_eq_true_iff.1 (mem_filter.1 ((hkeys _).1 hk).mem).2).2
    · exact (exists_cacheObjectPath_iff siteId (two_le_byteLen rest h.digest)).1 ⟨path, hpath⟩
  · obtain ⟨b', hstores, hrun⟩ := run_purgeSiteInner_of_not hfinds
    rw [hrun]
    refine h.keeps_deleteSiteOssOnly ?_ p state.storage
    unfold Keeps
    rwa [hstores.1]

end Neighbours

def PurgeRequest.siteId : PurgeRequest → Str
  | .url siteId .. => siteId
  | .site siteId => siteId
  | .tag siteId _ => siteId

/-- A purge request, and the background task of a site purge that was accepted. -/
def purgeToEnd (p : Profile) (state : AdminState) (taskId : Str) (request : PurgeRequest) :
    AdminTask PUnit := do
  let answer ← purgeCache p state taskId request
  match request with
  | .site siteId =>
    if answer.1 = 202 then do
      let _ ← purgeSiteBackground p { state with tasks := answer.2.2 } siteId taskId
      return ⟨⟩
    else return ⟨⟩
  | _ => return ⟨⟩

namespace Neighbours

variable {siteId other key : Str} (h : Neighbours siteId other key) {s : Stores} {b : Backends}
  (hb : Keeps other key s b) (p : Profile) (state : AdminState)

include h hb

theorem keeps_purgeCacheUrl (hmd5 : ∀ x, IsDigest (state.md5 x)) (host path : Str)
    (query : Option Str) (sort : Bool) (vary : List (Str × Str)) : Keeps other key s
      ((purgeCacheUrl state siteId host path query sort vary).run serve b).2 := by
  unfold purgeCacheUrl
  split
  · exact hb
  · exact hb
  split
  · exact hb
  refine Task.run_bind_keeps ?_ fun result b' _ hb' => ?_
  · refine Task.run_bind_keeps ?_ fun _ _ _ hb' => hb'
    rw [run_onStores_eq]
    refine keeps_run ((only_delete siteId _).mono fun c hc => h.spares (fun k hk => ?_) hc) hb
    rw [mem_singleton.1 hk]
    exact h.metaKey_ne (hmd5 _).colon_free
  · cases result <;> exact hb'

theorem keeps_purgeCacheTag (hoss : state.storage.oss = true) (tag : Str)
    (hmembers : ∀ keys, (serveStore (.redisSmembers (tagKey siteId tag)) b).1 = .ok keys →
      ∀ k ∈ keys, ':' ∉ k) :
    Keeps other key s ((purgeCacheTag p state siteId tag).run serve b).2 := by
  unfold purgeCacheTag
  split
  · exact hb
  split
  · exact hb
  split
  · exact hb
  split
  · exact hb
  refine Task.run_bind_keeps ?_ fun result b' _ hb' => ?_
  · rw [run_onStores_eq]
    exact h.keeps_deleteByTag hb p hoss hmembers
  · cases result <;> exact hb'

theorem keeps_purgeSiteBackground (hoss : state.storage.oss = true)
    (hexposed : ¬ Exposed siteId other) (taskId : Str) :
    Keeps other key s ((purgeSiteBackground p state siteId taskId).run serve b).2 := by
  refine Task.run_bind_keeps (h.keeps_purgeSiteInner hb p state hoss hexposed)
    fun result b' _ hb' => ?_
  refine Task.run_bind_keeps (keeps_timestamp hb') fun now b'' _ hb'' => ?_
  cases result <;> exact hb''

theorem keeps_purgeToEnd (hmd5 : ∀ x, IsDigest (state.md5 x)) (hoss : state.storage.oss = true)
    (hexposed : ¬ Exposed siteId other) (taskId : Str) {request : PurgeRequest}
    (hrequest : request.siteId = siteId)
    (hmembers : ∀ tag keys, (serveStore (.redisSmembers (tagKey siteId tag)) b).1 = .ok keys →
      ∀ k ∈ keys, ':' ∉ k) :
    Keeps other key s ((purgeToEnd p state taskId request).run serve b).2 := by
  cases request with
  | url site host path query sort vary =>
    obtain rfl : site = siteId := hrequest
    exact Task.run_bind_keeps (h.keeps_purgeCacheUrl hb state hmd5 host path query sort vary)
      fun _ _ _ hb' => hb'
  | tag site tag =>
    obtain rfl : site = siteId := hrequest
    exact Task.run_bind_keeps (h.keeps_purgeCacheTag hb p state hoss tag (hmembers tag))
      fun _ _ _ hb' => hb'
  | site site =>
    obtain rfl : site = siteId := hrequest
    refine Task.run_bind_keeps ?_ fun answer b' _ hb' => ?_
    · dsimp only [purgeCache, purgeCacheSite]
      split
      · exact hb
      split
      · exact hb
      split
      · exact hb
      · exact Task.run_bind_keeps (keeps_timestamp hb) fun _ _ _ hb' => hb'
    dsimp only
    split
    · exact Task.run_bind_keeps
        (h.keeps_purgeSiteBackground hb' p { state with tasks := answer.2.2 } hoss
        hexposed taskId) fun _ _ _ hb'' => hb''
    · exact hb'

end Neighbours

/-- What a read returns at a later time, whatever fails then. -/
def readAt {α : Type} (t : StoreTask α) (later : Clock) (outages : List Bool) (s : Stores) :
    Except Fault α :=
  ((onStores t).run serve ⟨{ s with clock := later }, onePage, outages, []⟩).1

/-- All reads of the site return the same. -/
structure SameReads (p : Profile) (storage : CacheStorage) (siteId : Str) (s s' : Stores) :
    Prop where
  get : ∀ key later outages, IsDigest key →
    readAt (storage.get siteId key) later outages s = readAt (storage.get siteId key)
      later outages s'
  getWithStale : ∀ key later outages, IsDigest key →
    readAt (storage.getWithStale p siteId key) later outages s
      = readAt (storage.getWithStale p siteId key) later outages s'
  getRange : ∀ key start stop later outages, IsDigest key →
    readAt (storage.getRange siteId key start stop) later outages s
      = readAt (storage.getRange siteId key start stop) later outages s'

theorem readAt_congr {α : Type} {siteId key : Str} {t : StoreTask α}
    (ht : t.Only (Reading siteId key)) (later : Clock)
    (outages : List Bool) {s s' : Stores} (h : s.SameEntry siteId key s') :
    readAt t later outages s = readAt t later outages s' := by
  unfold readAt
  rw [run_onStores_eq, run_onStores_eq]
  refine Task.run_agree (R := fun b b' => b.outages = b'.outages ∧
    b.stores.SameEntry siteId key b'.stores) ?_ ht
    ⟨rfl, rfl, h.redis, h.body⟩
  rintro c b b' hc ⟨houtages, hsame⟩
  unfold serveStore serve
  rw [houtages]
  split
  · refine ⟨?_, rfl, hsame⟩
    cases c with
    | timestamp =>
      show b.stores.clock.timestamp = b'.stores.clock.timestamp
      rw [hsame.clock]
    | _ => rfl
  · obtain ⟨hanswer, hsame'⟩ := hsame.serve hc
    simp only [answer, serveExcept_read _ hc]
    exact ⟨hanswer, trivial, hsame'⟩

/-- Purges of `siteId` leave the reads of `other` alone, in every state that a run of the cache
reaches with digests for keys. -/
def Isolated (p : Profile) (siteId other : Str) : Prop :=
  ∀ (state : AdminState) (taskId : Str) (clock : Clock) (events : List CacheEvent) (paging : Paging)
    (outages : List Bool) (refused : List Str) (request : PurgeRequest),
      (∀ x, IsDigest (state.md5 x)) →
    (∀ n ∈ writtenNames events, IsDigest n.2) → request.siteId = siteId →
    SameReads p state.storage other (run p events (.empty clock)).stores
      ((purgeToEnd p state taskId request).run serve
        ⟨(run p events (.empty clock)).stores, paging, outages, refused⟩).2.stores

variable (p : Profile)

theorem SameReads.of_no_oss {storage : CacheStorage} (h : storage.oss = false) (siteId : Str)
    (s s' : Stores) : SameReads p storage siteId s s' := by
  have hnone : ∀ {α : Type} key (read : (path : Str) → Option CacheMeta → StoreTask (Option α)),
      storage.withEntry siteId key read = .done none := by
    intro α key read
    unfold withEntry
    rw [h]
    rfl
  constructor
  · intro key later outages _
    rw [CacheStorage.get, hnone]
    rfl
  · intro key later outages _
    rw [CacheStorage.getWithStale, hnone]
    rfl
  · intro key start stop later outages _
    rw [CacheStorage.getRange, hnone]
    rfl

theorem colon_free_members (clock : Clock) {events : List CacheEvent}
    (hnames : ∀ n ∈ writtenNames events, IsDigest n.2) (siteId tag : Str) {keys : List Str}
    (hkeys : Stores.membersAnswer ((run p events (.empty clock)).stores.live (tagKey siteId tag)) =
      .ok keys) :
    ∀ k ∈ keys, ':' ∉ k := by
  have hmembers := writtenInto_run p events (members_empty _ clock)
  have htag : IsTagKey (tagKey siteId tag) := ⟨siteId, tag, rfl⟩
  rw [hmembers.sets.smembers _ htag] at hkeys
  cases hkeys
  intro k hk
  obtain ⟨w, hw, rfl, -⟩ := hmembers.member _ htag k hk
  rcases mem_writes_run p events hw with hnone | hnamed
  · cases hnone
  · exact (hnames _ hnamed).colon_free

theorem isolated_of_not_exposed {siteId other : Str} (hsite : validateSiteId siteId = .ok ())
    (hother : validateSiteId other = .ok ()) (hne : siteId ≠ other) (h : ¬ Exposed siteId other) :
    Isolated p siteId other := by
  intro state taskId clock events paging outages refused request hmd5 hnames hrequest
  by_cases hoss : state.storage.oss = true
  · suffices hsame : ∀ key, IsDigest key → Stores.SameEntry other key _ _ from
      ⟨fun key later outages hkey => readAt_congr (only_get other key) later outages
        (hsame key hkey),
        fun key later outages hkey => readAt_congr (only_getWithStale other key p) later outages
          (hsame key hkey),
        fun key start stop later outages hkey =>
          readAt_congr (only_getRange other key start stop) later outages (hsame key hkey)⟩
    intro key hkey
    have hkeeps : Keeps other key (run p events (.empty clock)).stores
        ⟨(run p events (.empty clock)).stores, paging, outages, refused⟩ := .refl _ _ _
    refine (Neighbours.mk hsite hother hne hkey).keeps_purgeToEnd hkeeps p state hmd5 hoss h
      taskId hrequest ?_
    intro tag keys hkeys
    unfold serveStore serve at hkeys
    split at hkeys
    · cases hkeys
    · exact colon_free_members p clock hnames siteId tag hkeys
  · exact .of_no_oss p (Bool.eq_false_iff.2 hoss) other _ _

/-! ## A site that is exposed -/

def missingPage (siteId key : Str) : Write := { storedPage siteId key with status := 404 }

structure OnlyPage (siteId key path : Str) (s : Stores) : Prop where
  clock : s.clock = ⟨0, by decide⟩
  body : s.objects.lookup path = some [33]
  entry : s.redis.lookup (metaKey siteId key) = some ((missingPage siteId key).entry ⟨0, by decide⟩)
  rest : ∀ key', ¬ IsTagKey key' → key' ≠ metaKey siteId key → s.redis.lookup key' = none

section

variable (p : Profile) {siteId key path : Str} {s : Stores}
  (hpath : (cacheObjectPath siteId key : Exec Empty Str) = .ok path)
include hpath

theorem onlyPage_put : OnlyPage siteId key path
      (run p [.put (missingPage siteId key)] (.empty ⟨0, by decide⟩)).stores := by
  obtain ⟨s, hput, hclock, hobjects, hentry, hrest⟩ := run_put p (w := missingPage siteId key) hpath
    (empty ⟨0, by decide⟩).stores
  have hstores := (stores_run_put p (missingPage siteId key) (.empty ⟨0, by decide⟩)).trans
    (congrArg Prod.snd hput)
  rw [hstores]
  refine ⟨hclock, ?_, hentry, fun key' htag hne => (hrest key' htag hne).trans rfl⟩
  rw [hobjects, AList.lookup_insert]
  rfl

end

def siteAdmin (siteId key : Str) : AdminState := ⟨.full, true, [siteId], fun _ => key, []⟩

theorem run_purgeToEnd {siteId key : Str} (hsite : validateSiteId siteId = .ok ()) {s s' : Stores}
    (hinner : (purgeSiteInner p (siteAdmin siteId key) siteId).run serve ⟨s, onePage, [], []⟩
      = (.ok (.ok 0), ⟨s', onePage, [], []⟩)) :
    ((purgeToEnd p (siteAdmin siteId key) [] (.site siteId)).run serve
      ⟨s, onePage, [], []⟩).2.stores = s' := by
  have haccepted : (purgeCache p (siteAdmin siteId key) [] (.site siteId)).run serve
      ⟨s, onePage, [], []⟩
      = (.ok (202, .site siteId [], [⟨[], siteId, .running, 0, s.clock.timestamp, none, none⟩]),
        ⟨s, onePage, [], []⟩) := by
    have hknown : (siteAdmin siteId key).sites.contains siteId = true := by simp [siteAdmin]
    show (purgeCacheSite (siteAdmin siteId key) [] siteId).run serve ⟨s, onePage, [], []⟩ = _
    unfold purgeCacheSite
    rw [hsite]
    rw [hknown]
    rfl
  unfold purgeToEnd
  rw [Task.run_bind_of_ok haccepted]
  dsimp only
  rw [if_pos rfl]
  have hbackground : ∀ tasks, ∃ tasks',
      (purgeSiteBackground p { siteAdmin siteId key with tasks } siteId []).run serve
        ⟨s, onePage, [], []⟩
        = (.ok tasks', ⟨s', onePage, [], []⟩) := fun tasks => ⟨_, Task.run_bind_of_ok hinner⟩
  obtain ⟨tasks', hrun⟩ := hbackground [⟨[], siteId, .running, 0, s.clock.timestamp, none, none⟩]
  rw [Task.run_bind_of_ok hrun]
  rfl

theorem run_purgeSiteInner_of_exposed {siteId other rest key path : Str} {s : Stores}
    (hsite : validateSiteId siteId = .ok ()) (hvalid : validateSiteId other = .ok ())
    (hother : other = siteId ++ ':' :: rest) (hkey : IsDigest key)
    (hglob : glob (strBytes (sitePrefix siteId ++ "*")) (strBytes (metaKey other key)) = true)
    (hboundary : CharBoundary (rest ++ ':' :: key) 2)
    (hpath : (cacheObjectPath other key : Exec Empty Str) = .ok path)
    (hpage : OnlyPage other key path s) :
    ∃ s', (purgeSiteInner p (siteAdmin siteId key) siteId).run serve ⟨s, onePage, [], []⟩
        = (.ok (.ok 0), ⟨s', onePage, [], []⟩) ∧
      s'.objects.lookup path = some [33] ∧ s'.redis.lookup (metaKey other key) = none := by
  have hne : siteId ≠ other := by simp [hother]
  have hmeta : metaKey siteId (rest ++ ':' :: key) = metaKey other key := by
    rw [metaKey_eq, metaKey_eq, hother, append_assoc siteId, cons_append]
  have hfound : metaKey other key ∈ siteKeys siteId ⟨s, onePage, [], []⟩ := by
    refine mem_filter.2 ⟨?_, Bool.and_eq_true_iff.2 ⟨?_, hglob⟩⟩
    · rw [← AList.mem_keys, ← AList.lookup_isSome, hpage.entry]
      rfl
    · rw [Stores.live_of_lookup hpage.entry (by rw [hpage.clock]; simp [Write.entry])]
      rfl
  have hfinds : ScanFinds (siteAdmin siteId key) siteId ⟨s, onePage, [], []⟩ :=
    ⟨rfl, rfl, ne_nil_of_mem hfound⟩
  obtain ⟨keys, hkeys, hrun⟩ := run_purgeSiteInner_of_found hfinds
  -- any other key of the pattern would have to be in Redis
  have hall : ∀ k ∈ keys, metaKey siteId k = metaKey other key := by
    intro k hk
    have hin := (mem_filter.1 ((hkeys k).1 hk).mem).1
    by_contra hother'
    rw [← AList.mem_keys, ← AList.lookup_isSome,
      hpage.rest _ (not_isTagKey_metaKey siteId k) hother'] at hin
    cases hin
  obtain ⟨place, hplace⟩ :=
    (exists_cacheObjectPath_iff siteId (two_le_byteLen rest hkey)).2 hboundary
  have hpaths : Returns (keys.mapM fun k => (cacheObjectPath siteId k : Exec Empty Str)) := by
    refine (ReturnsIff.mapM fun k hk => ?_).returns fun _ _ => trivial
    obtain rfl : k = rest ++ ':' :: key := append_cancel_left ((hall k hk).trans hmeta.symm)
    exact .of_eq_ok hplace trivial
  obtain ⟨paths, hpaths⟩ := hpaths
  obtain ⟨s', hdelete, -, hobjects, hredis⟩ := run_deleteMany p hpaths s
  refine ⟨s', ?_, ?_, ?_⟩
  · rw [hrun]
    show (onStores (full.deleteMany p siteId keys)).run serve ⟨s, onePage, [], []⟩ = _
    rw [run_onStores, hdelete]
  · rw [hobjects, Stores.lookup_foldl_erase, if_neg, hpage.body]
    intro hmem
    obtain ⟨k, -, hk⟩ := (mem_iff_of_mapM hpaths).1 hmem
    exact path_ne_of_valid hsite hvalid hne hk hpath
  · rw [← hmeta]
    refine hredis _ ((hkeys _).2 ⟨[], siteKeys siteId ⟨s, onePage, [], []⟩, [], rfl, ?_, by decide⟩)
    rw [hmeta]
    exact hfound

theorem not_isolated_of_exposed {siteId other : Str} (hsite : validateSiteId siteId = .ok ())
    (hvalid : validateSiteId other = .ok ()) (h : Exposed siteId other) :
      ¬ Isolated p siteId other := by
  obtain ⟨rest, key, hother, hkey, hglob, hboundary⟩ := h
  obtain ⟨path, hpath⟩ := hkey.path other
  intro hisolated
  have hpage := onlyPage_put p hpath
  obtain ⟨s', hinner, hbody, hgone⟩ :=
    run_purgeSiteInner_of_exposed p hsite hvalid hother hkey hglob hboundary hpath hpage
  have hsame := hisolated (siteAdmin siteId key) [] ⟨0, by decide⟩
    [.put (missingPage other key)] onePage []
    [] (.site siteId) (fun _ => hkey) (forall_mem_singleton.2 hkey) rfl
  rw [run_purgeToEnd p hsite hinner] at hsame
  have hread := hsame.getWithStale key ⟨0, by decide⟩ [] hkey
  -- while the metadata is there, and without
  have hmeta : ({ (run p _ _).stores with clock := ⟨0, by decide⟩ } : Stores).metaOf
    (metaKey other key)
      = some (missingPage other key).metadata := metaOf_of_lookup hpage.entry (by simp)
  have hexpires : (⟨0, by decide⟩ : Clock).timestamp < (missingPage [] []).metadata.expiresAt := by
    decide +kernel
  have hnone : ({ s' with clock := ⟨0, by decide⟩ } : Stores).metaOf (metaKey other key) = none :=
    metaOf_of_lookup_none hgone
  dsimp only [siteAdmin] at hread
  rw [readAt, readAt, run_onStores, run_onStores,
    getWithStale_of_fresh hpath hmeta hexpires, hpage.body,
    getWithStale_of_none hpath hnone, hbody] at hread
  have hstatus : (404 : UInt16) = 200 :=
    congrArg (fun r : CachedResponse × Bool => r.1.metadata.status)
      (Option.some.inj (Except.ok.inj hread))
  exact absurd hstatus (by decide)

/-- **Purges and other sites.** For two site ids that `validate_site_id` accepts, the purges of the
one leave the reads of the other alone exactly if the other is not exposed to it. -/
theorem isolated_iff (p : Profile) (siteId other : Str) (hsite : validateSiteId siteId = .ok ())
    (hother : validateSiteId other = .ok ()) (hne : siteId ≠ other) :
    Isolated p siteId other ↔ ¬ Exposed siteId other :=
  ⟨fun h hexposed => not_isolated_of_exposed p hsite hother hexposed h,
    isolated_of_not_exposed p hsite hother hne⟩

theorem isolated_iff_shop_blog :
    validateSiteId "shop".toList = .ok () ∧ validateSiteId "blog".toList = .ok () ∧
      "shop".toList ≠ "blog".toList ∧ Isolated .release "shop".toList "blog".toList := by
  have hexposed : ¬ Exposed "shop".toList "blog".toList := by
    rintro ⟨rest, key, hother, -⟩
    have hcolon : ':' ∉ "blog".toList := by decide
    exact hcolon (hother ▸ mem_append_cons_self)
  exact ⟨by decide, by decide, by decide,
    (isolated_iff .release "shop".toList "blog".toList (by decide) (by decide) (by decide)).2
      hexposed⟩

def emptyDigest : Str := "d41d8cd98f00b204e9800998ecf8427e"

def pageOfOther : Stores :=
  (run .release [.put (missingPage "a:b" emptyDigest)] (.empty ⟨0, Clock.zero_bound⟩)).stores

/-- A site purge of `a` makes the page of `a:b` a 200. -/
theorem isolated_fails :
    validateSiteId "a" = .ok () ∧ validateSiteId "a:b" = .ok () ∧
      readAt (CacheStorage.full.getWithStale .release "a:b" emptyDigest)
        ⟨0, by decide⟩ [] pageOfOther
        = .ok (some (⟨(missingPage "a:b" emptyDigest).metadata, [33]⟩, false)) ∧
      readAt (CacheStorage.full.getWithStale .release "a:b" emptyDigest) ⟨0, by decide⟩ []
          ((purgeToEnd .release (siteAdmin "a" emptyDigest) [] (.site "a")).run Backends.serve
            ⟨pageOfOther, onePage, [], []⟩).2.stores
        = .ok (some (⟨CacheStorage.fallbackMeta 0 [33], [33]⟩, false)) ∧
      ¬ Isolated .release "a" "a:b" := by
  have hexposed : Exposed "a" "a:b" :=
    ⟨"b", emptyDigest, rfl, by decide, by decide +kernel, 2, by decide⟩
  refine ⟨by decide, by decide, by decide +kernel, by decide +kernel, ?_⟩
  exact not_isolated_of_exposed .release (by decide) (by decide) hexposed

end Nozdormu.Admin
