import Nozdormu.Admin.UrlPurge
import Nozdormu.Data.Race

/-!
# Purging a site
-/

namespace Nozdormu.Admin

open Rust Bmff Cache Proxy Data CacheStorage CacheSystem List

namespace Backends

open Task

/-- Calls that leave the body at a path alone. -/
def SparesBody (path : Str) : AdminCall → Prop
  | .store c => Cache.SparesBody path c
  | _ => True

theorem objects_serve {path : Str} {c : AdminCall} (h : SparesBody path c) (b : Backends) :
    (serve c b).2.stores.objects.lookup path = b.stores.objects.lookup path := by
  cases c with
  | store c =>
    rcases stores_serve c b with hstores | hstores
    · rw [hstores]
    · rw [hstores]
      refine Stores.objects_serve ?_ b.stores
      cases c with
      | deleteObjects paths => exact fun hin => h (mem_filter.1 hin).1
      | _ => exact h
  | scan | listObjects =>
    unfold serve
    split <;> rfl

theorem refused_serve (c : AdminCall) (b : Backends) : (serve c b).2.refused = b.refused := by
  unfold serve
  split <;> rfl

/-- The bodies at some paths are gone unless they are refused, the others are as they were. -/
structure Erased (o : AList fun _ : Str => Bytes) (refused : List Str) (paths : Str → Prop)
    (b : Backends) : Prop where
  same : b.refused = refused
  gone : ∀ path, paths path → path ∉ refused → b.stores.objects.lookup path = none
  kept : ∀ path, ¬ (paths path ∧ path ∉ refused) → b.stores.objects.lookup path = o.lookup path

variable {o : AList fun _ : Str => Bytes} {refused : List Str}
  {storage : CacheStorage} {siteId : Str}

theorem erased_refl (b : Backends) : Erased b.stores.objects b.refused (· ∈ ([] : List Str)) b :=
  ⟨rfl, fun _ h => absurd h not_mem_nil, fun _ _ => rfl⟩

theorem Erased.congr {paths paths' : Str → Prop} {b : Backends} (h : Erased o refused paths b)
    (hpaths : ∀ path, paths path ↔ paths' path) : Erased o refused paths' b :=
  ⟨h.same, fun path hpath => h.gone path ((hpaths path).2 hpath),
    fun path hpath => h.kept path fun hin => hpath ⟨(hpaths path).1 hin.1, hin.2⟩⟩

theorem Erased.deleteObjects {done chunk : List Str} {b : Backends} {count : Nat}
    (h : Erased o refused (· ∈ done) b)
    (hserved : (serveStore (.deleteObjects chunk) b).1 = .ok count) :
    Erased o refused (· ∈ done ++ chunk) (serveStore (.deleteObjects chunk) b).2 := by
  have hsame := (refused_serve (.store (.deleteObjects chunk)) b).trans h.same
  unfold serveStore serve at hserved ⊢
  split at hserved
  next => cases hserved
  next hup =>
    rw [if_neg hup]
    have hleft : ∀ path, path ∈ chunk.filter (!b.refused.contains ·) ↔
        path ∈ chunk ∧ path ∉ refused := by
      simp [h.same]
    refine ⟨by rwa [serve, if_neg hup] at hsame, ?_, ?_⟩
    · intro path hpath hyes
      rcases Classical.em (path ∈ chunk) with hin | hout
      · exact (Stores.lookup_foldl_erase ..).trans (if_pos ((hleft path).2 ⟨hin, hyes⟩))
      · refine ((Stores.lookup_foldl_erase ..).trans
          (if_neg fun hin => hout ((hleft path).1 hin).1)).trans
          (h.gone path ?_ hyes)
        exact (mem_append.1 hpath).resolve_right hout
    · intro path hpath
      refine ((Stores.lookup_foldl_erase ..).trans (if_neg fun hin => hpath ?_)).trans
        (h.kept path fun hin => hpath ⟨mem_append_left _ hin.1, hin.2⟩)
      obtain ⟨hchunk, hyes⟩ := (hleft path).1 hin
      exact ⟨mem_append_right _ hchunk, hyes⟩

theorem ensures_deleteObjectsBatch (p : Profile) :
    ∀ (chunks : List (List Str)) (total : Nat) (done : List Str),
    Ensures serveStore (Erased o refused (· ∈ done)) (deleteObjectsBatch p chunks total)
      fun result b => ∀ count, result = .ok count → Erased o refused
      (· ∈ done ++ chunks.flatten) b := by
  intro chunks
  induction chunks with
  | nil =>
    intro total done
    refine ensures_done fun b hb _ _ => ?_
    rwa [flatten_nil, append_nil]
  | cons chunk chunks ih =>
    intro total done
    refine ensures_perform_bind
      (M := fun r b => ∀ count, r = .ok count → Erased o refused (· ∈ done ++ chunk) b)
      (fun b hb count hcount => hb.deleteObjects hcount) fun r => ?_
    cases r with
    | error e => exact ensures_done fun b _ => nofun
    | ok count =>
      refine ensures_ofExec_bind fun total _ => ?_
      refine (ih total (done ++ chunk)).mono (fun b hb => hb count rfl) fun result b hb => ?_
      rwa [append_assoc, ← flatten_cons] at hb

/-- The paths of some entries. -/
def PathsOf (siteId : Str) (keys : List Str) (path : Str) : Prop :=
  ∃ key ∈ keys, (cacheObjectPath siteId key : Exec Empty Str) = .ok path

theorem ensures_deleteBodies (p : Profile) (keys : List Str) (hoss : storage.oss = true) :
    Ensures serveStore (fun b => b.stores.objects = o ∧ b.refused = refused)
      (storage.deleteBodies p siteId keys)
      fun result b => ∀ count, result = .ok count → Erased o refused (PathsOf siteId keys) b := by
  unfold deleteBodies
  rw [if_pos hoss]
  refine ensures_ofExec_bind fun paths hpaths => ?_
  refine (@ensures_deleteObjectsBatch o refused p _ 0 []).mono ?_ ?_
  · rintro b ⟨rfl, rfl⟩
    exact erased_refl b
  intro result b hb count hcount
  refine (hb count hcount).congr fun path => ?_
  rw [nil_append, flatten_toChunks]
  exact mem_iff_of_mapM hpaths

theorem ensures_deleteMany (p : Profile) (keys : List Str) (hoss : storage.oss = true) :
    Ensures serveStore (fun b => b.stores.objects = o ∧ b.refused = refused)
      (storage.deleteMany p siteId keys)
      fun result b => ∀ count, result = .ok count → Erased o refused (PathsOf siteId keys) b := by
  have hmetas : (deleteMetas siteId keys).Only (∀ path, Cache.SparesBody path ·) :=
    only_forM fun key _ => only_perform_bind (fun _ => trivial) fun _ => trivial
  unfold deleteMany
  split
  next hempty =>
    refine ensures_done fun b hb _ _ => ?_
    rw [isEmpty_iff.1 hempty, ← hb.1, ← hb.2]
    exact (erased_refl b).congr fun path => ⟨fun h => absurd h not_mem_nil, fun h => by
      obtain ⟨key, hkey, -⟩ := h
      exact absurd hkey not_mem_nil⟩
  next =>
    refine (ensures_deleteBodies p keys hoss).bind fun result => ?_
    cases result with
    | error e => exact ensures_done fun b _ => nofun
    | ok count =>
      dsimp only
      split
      · refine Ensures.bind ?_
          fun _ => ensures_done fun b hb _ _ => hb
        refine (ensures_of_only hmetas fun c b hc hb => ?_).mono
          (fun b hb => hb count rfl) fun _ _ h => h
        have hsame := fun path => objects_serve (c := .store c) (hc path) b
        exact ⟨(refused_serve _ b).trans hb.same,
          fun path hpath hyes => (hsame path).trans (hb.gone path hpath hyes),
          fun path hpath => (hsame path).trans (hb.kept path hpath)⟩
      · exact ensures_done fun b hb _ _ => hb count rfl

end Backends

/-- The key is on a page that comes before a million keys have come. -/
def Reached (pages : List (List Str)) (key : Str) : Prop :=
  ∃ before page after, pages = before ++ page :: after ∧ key ∈ page ∧
    before.flatten.length < maxKeys

theorem exists_split_cons {α : Type} {x : α} {xs : List α} {Q : List α → α → Prop} :
    (∃ before y after, x :: xs = before ++ y :: after ∧ Q before y) ↔
      Q [] x ∨ ∃ before y after, xs = before ++ y :: after ∧ Q (x :: before) y := by
  constructor
  · rintro ⟨before, y, after, hsplit, hQ⟩
    cases before with
    | nil =>
      cases hsplit
      exact .inl hQ
    | cons first before =>
      obtain ⟨rfl, hrest⟩ := List.cons.inj hsplit
      exact .inr ⟨before, y, after, hrest, hQ⟩
  · rintro (hQ | ⟨before, y, after, hsplit, hQ⟩)
    · exact ⟨[], x, xs, rfl, hQ⟩
    · exact ⟨x :: before, y, after, by rw [hsplit, cons_append], hQ⟩

theorem mem_scanPages : ∀ (pages : List (List Str)) (allKeys : List Str), allKeys.length < maxKeys →
    ∃ keys, scanPages (pages.map .ok) allKeys = .ok keys ∧ ∀ key, key ∈ keys ↔ key ∈ allKeys ∨
      ∃ before page after, pages = before ++ page :: after ∧ key ∈ page ∧
        allKeys.length + before.flatten.length < maxKeys := by
  intro pages
  induction pages with
  | nil =>
    intro allKeys _
    refine ⟨allKeys, rfl, fun key => ⟨.inl, ?_⟩⟩
    rintro (h | ⟨before, page, after, hsplit, -⟩)
    · exact h
    · exact absurd hsplit.symm (by simp)
  | cons page pages ih =>
    intro allKeys hlt
    have hsplit : ∀ key, (∃ before page' after, page :: pages = before ++
        page' :: after ∧ key ∈ page' ∧
        allKeys.length + before.flatten.length < maxKeys) ↔
        key ∈ page ∨ ∃ before page' after, pages = before ++ page' :: after ∧ key ∈ page' ∧
          (allKeys ++ page).length + before.flatten.length < maxKeys := by
      intro key
      rw [exists_split_cons]
      refine or_congr ⟨fun h => h.1, fun h => ⟨h, hlt⟩⟩ ?_
      simp only [flatten_cons, length_append, Nat.add_assoc]
    by_cases hcap : maxKeys ≤ (allKeys ++ page).length
    · refine ⟨allKeys ++ page, if_pos hcap, fun key => ?_⟩
      rw [hsplit, mem_append]
      refine or_congr_right ⟨.inl, fun h => h.resolve_right ?_⟩
      rintro ⟨before, page', after, -, -, hle⟩
      omega
    · obtain ⟨keys, hkeys, hmem⟩ := ih (allKeys ++ page) (Nat.not_le.1 hcap)
      refine ⟨keys, (if_neg hcap).trans hkeys, fun key => ?_⟩
      rw [hmem, hsplit, mem_append, or_assoc]

theorem exists_scanPages (pages : List (List Str)) :
    ∃ keys, scanPages (pages.map .ok) [] = .ok keys ∧ ∀ key, key ∈ keys ↔ Reached pages key := by
  obtain ⟨keys, hkeys, hmem⟩ := mem_scanPages pages [] (by decide)
  refine ⟨keys, hkeys, fun key => ?_⟩
  rw [hmem]
  simp only [not_mem_nil, false_or, length_nil, Nat.zero_add]
  rfl

theorem Reached.mem {paging : Paging} {keys : List Str} {key : Str}
    (h : Reached (paging.pages keys) key) :
    key ∈ keys := by
  obtain ⟨before, page, after, hsplit, hpage, -⟩ := h
  rw [← paging.mem_pages, hsplit]
  exact mem_flatten.2 ⟨page, by simp, hpage⟩

theorem exists_reached {pages : List (List Str)} {key : Str} (h : key ∈ pages.flatten) :
    ∃ key', Reached pages key' := by
  have hfirst : ∃ before page after, pages = before ++ page :: after ∧ page ≠ [] ∧
      before.flatten = [] := by
    induction pages with
    | nil => cases h
    | cons page pages ih =>
      rw [exists_split_cons]
      by_cases hpage : page = []
      · rw [hpage, flatten_cons, nil_append] at h
        obtain ⟨before, page', after, hsplit, hne, hnil⟩ := ih h
        exact .inr ⟨before, page', after, hsplit, hne, by rw [hpage, flatten_cons, hnil]; rfl⟩
      · exact .inl ⟨hpage, rfl⟩
  obtain ⟨before, page, after, hsplit, hne, hnil⟩ := hfirst
  obtain ⟨key', hkey'⟩ := exists_mem_of_ne_nil page hne
  exact ⟨key', before, page, after, hsplit, hkey', by rw [hnil]; decide⟩

namespace Backends

open Task

variable {p : Profile} {state : AdminState} {siteId : Str} {b : Backends}

def siteKeys (siteId : Str) (b : Backends) : List Str :=
  matching b.stores (sitePrefix siteId ++ "*")

/-- The keys are asked for, the call is served, and there are some. -/
def ScanFinds (state : AdminState) (siteId : Str) (b : Backends) : Prop :=
  state.redisPool = true ∧ b.outages.headD false = false ∧ siteKeys siteId b ≠ []

theorem run_purgeSiteInner_of_found (h : ScanFinds state siteId b) : ∃ keys,
    (∀ key, key ∈ keys ↔ Reached (b.paging.pages (siteKeys siteId b)) (metaKey siteId key)) ∧
    (purgeSiteInner p state siteId).run serve b
      = (onStores (state.storage.deleteMany p siteId keys)).run serve
      { b with outages := b.outages.tail } := by
  obtain ⟨hpool, hup, hsome⟩ := h
  obtain ⟨found, hfound, hreached⟩ := exists_scanPages (b.paging.pages (siteKeys siteId b))
  have hne : ¬ found.isEmpty = true := by
    obtain ⟨key, hkey⟩ := List.exists_mem_of_ne_nil _ hsome
    obtain ⟨key', hkey'⟩ := exists_reached ((b.paging.mem_pages _ key).2 hkey)
    rw [List.isEmpty_iff]
    exact List.ne_nil_of_mem ((hreached key').2 hkey')
  refine ⟨found.filterMap (stripStart (sitePrefix siteId)), ?_, ?_⟩
  · intro key
    rw [← hreached, List.mem_filterMap]
    constructor
    · rintro ⟨redisKey, hin, hstrip⟩
      obtain rfl := stripStart_eq_some_iff.1 hstrip
      exact hin
    · intro hin
      exact ⟨metaKey siteId key, hin, stripStart_eq_some_iff.2 rfl⟩
  · have hscan : (scanKeys state.redisPool (sitePrefix siteId ++ "*") 100).run serve b
        = (.ok (.ok found), { b with outages := b.outages.tail }) := by
      have hserve : serve (.scan (sitePrefix siteId ++ "*") 100) b
          = ((b.paging.pages (siteKeys siteId b)).map .ok, { b with outages := b.outages.tail }) :=
            by
        unfold serve
        rw [if_neg (by rw [hup]; decide)]
        rfl
      unfold scanKeys
      rw [if_pos hpool, perform_bind, run_call, hserve, hfound]
      rfl
    unfold purgeSiteInner
    rw [run_bind_of_ok hscan]
    dsimp only
    rw [if_neg hne]

theorem run_purgeSiteInner_of_not (h : ¬ ScanFinds state siteId b) :
    ∃ b', (b'.stores = b.stores ∧ b'.refused = b.refused) ∧
    (purgeSiteInner p state siteId).run serve b
      = (deleteSiteOssOnly p state.storage siteId).run serve b' := by
  have hscan : ∃ found b', (b'.stores = b.stores ∧ b'.refused = b.refused) ∧
      (∀ keys, found = .ok keys → keys.isEmpty = true) ∧
      (scanKeys state.redisPool (sitePrefix siteId ++ "*") 100).run serve b = (.ok found, b') := by
    unfold scanKeys
    by_cases hpool : state.redisPool = true
    · rw [if_pos hpool]
      refine ⟨scanPages (serve (.scan (sitePrefix siteId ++ "*") 100) b).1 [], _,
        ⟨?_, refused_serve _ b⟩, ?_, rfl⟩
      · unfold serve
        split <;> rfl
      intro keys hkeys
      unfold serve at hkeys
      split at hkeys
      next => cases hkeys
      next hup =>
        have hnone : siteKeys siteId b = [] := by
          by_contra hsome
          exact h ⟨hpool, Bool.eq_false_iff.2 hup, hsome⟩
        obtain ⟨found, hfound, hreached⟩ := exists_scanPages (b.paging.pages (siteKeys siteId b))
        obtain rfl : found = keys := ok_unique hfound hkeys
        rw [List.isEmpty_iff, List.eq_nil_iff_forall_not_mem]
        intro key hkey
        have hin := ((hreached key).1 hkey).mem
        rw [hnone] at hin
        cases hin
    · rw [if_neg hpool]
      refine ⟨_, b, ⟨rfl, rfl⟩, ?_, rfl⟩
      intro keys hkeys
      cases hkeys
  obtain ⟨found, b', hstores, hempty, hrun⟩ := hscan
  refine ⟨b', hstores, ?_⟩
  unfold purgeSiteInner
  rw [run_bind_of_ok hrun]
  cases found with
  | error e => rfl
  | ok keys =>
    dsimp only
    rw [if_pos (hempty keys rfl)]

theorem ensures_deleteSiteOssOnly (p : Profile) {storage : CacheStorage} (siteId : Str)
    (hoss : storage.oss = true) (s : Stores) (refused : List Str) :
    Ensures serve (fun b => b.stores = s ∧ b.refused = refused) (deleteSiteOssOnly p storage siteId)
      fun result b => ∀ count, result = .ok count → Erased s.objects refused
        (· ∈ (listed s ("cache/" ++ siteId ++ "/")).take maxKeys) b := by
  unfold deleteSiteOssOnly
  rw [if_pos hoss]
  refine ensures_perform_bind (M := fun r b => (b.stores = s ∧ b.refused = refused) ∧
    ∀ keys, r = .ok keys →
      keys = (listed s ("cache/" ++ siteId ++ "/")).take maxKeys) ?_ fun r => ?_
  · rintro b ⟨rfl, rfl⟩
    unfold serve
    split
    · exact ⟨⟨rfl, rfl⟩, nofun⟩
    · exact ⟨⟨rfl, rfl⟩, fun keys hkeys => (Except.ok.inj hkeys).symm⟩
  · cases r with
    | error e => exact ensures_done fun b _ => nofun
    | ok keys =>
      dsimp only
      split
      next hempty =>
        refine ensures_done fun b hb _ _ => ?_
        obtain ⟨⟨rfl, rfl⟩, hkeys⟩ := hb
        rw [← hkeys keys rfl, isEmpty_iff.1 hempty]
        exact erased_refl b
      next =>
        refine Ensures.bind (R := fun result b => ∀ count, result = .ok count →
          Erased s.objects refused
          (· ∈ (listed s ("cache/" ++ siteId ++ "/")).take maxKeys) b) ?_ fun result => ?_
        · intro b result b' hb hrun count hcount
          have hbatch := ensures_onStores (ensures_deleteObjectsBatch (o := s.objects) p
            (keys.toChunks 1000) 0 []) b result b' (by rw [← hb.1.1]; exact erased_refl b) hrun
            count hcount
          rw [hb.1.2] at hbatch
          rwa [nil_append, flatten_toChunks, hb.2 keys rfl] at hbatch
        · cases result with
          | error e => exact ensures_done fun b _ => nofun
          | ok count => exact ensures_done fun b hb _ _ => hb count rfl

/-! ## Reads after a purge -/

/-- Whatever is taken away later and whatever fails, no read of the site finds anything. -/
def Unreadable (p : Profile) (storage : CacheStorage) (siteId : Str) (b : Backends) : Prop :=
  ∀ (key : Str) (later : Backends), b.stores.Fades later.stores →
    ∀ r, ((onStores (storage.getWithStale p siteId key)).run serve later).1 ≠ .ok (some r)

theorem unreadable_iff (p : Profile) (storage : CacheStorage) (siteId : Str) (b : Backends) :
    Unreadable p storage siteId b ↔ (storage.oss = true → ∀ key path,
      (cacheObjectPath siteId key : Exec Empty Str) = .ok path → Absent path b) := by
  constructor
  · intro h hoss key path hpath
    -- without metadata the body would be found
    let later : Stores := { b.stores with redis := ∅ }
    have hfades : b.stores.Fades later := ⟨id, fun _ he => by cases he⟩
    have hread : ((storage.getWithStale p siteId key).run Stores.serve later).1
        = .ok ((later.objects.lookup path).map fun body =>
            (⟨fallbackMeta later.clock.timestamp body, body⟩, false)) := by
      obtain ⟨oss, redis⟩ := storage
      obtain rfl : oss = true := hoss
      cases redis with
      | true => exact getWithStale_of_none hpath (metaOf_of_lookup_none rfl)
      | false =>
        unfold getWithStale withEntry
        rw [if_pos rfl, hpath]
        show (Task.run _ (readWithoutMeta path >>= fun r => .done _) later).1 = _
        rw [run_map, run_readWithoutMeta]
        cases later.objects.lookup path <;> rfl
    have hnot := h key ⟨later, b.paging, [], []⟩ hfades
    rw [run_onStores, hread] at hnot
    cases hbody : b.stores.objects.lookup path with
    | none => exact hbody
    | some body =>
      have hsome : later.objects.lookup path = some body := hbody
      rw [hsome] at hnot
      exact absurd rfl (hnot _)
  · intro h key later hfades r hread
    cases hoss : storage.oss with
    | false =>
      unfold getWithStale withEntry at hread
      rw [if_neg (by rw [hoss]; decide)] at hread
      cases hread
    | true =>
      cases hpath : cacheObjectPath siteId key with
      | ok path =>
        have hnone := ensures_onStores (ensures_getWithStale p storage hpath) later (some r) _
          ((h hoss key path hpath).fades hfades) (Prod.ext hread rfl)
        cases hnone
      | error stop =>
        cases stop with
        | err e => cases e
        | fault f =>
          unfold getWithStale withEntry at hread
          rw [if_pos hoss, hpath] at hread
          cases hread

/-- The purge gets to the body at a path: by a metadata key that the `SCAN` reaches, if it finds
any, and else by the first million objects of the listing. -/
def Covered (state : AdminState) (siteId : Str) (b : Backends) (path : Str) : Prop :=
  (ScanFinds state siteId b → ∃ key, Reached (b.paging.pages (siteKeys siteId b))
    (metaKey siteId key) ∧
    (cacheObjectPath siteId key : Exec Empty Str) = .ok path) ∧
  (¬ ScanFinds state siteId b →
    path ∈ (listed b.stores ("cache/" ++ siteId ++ "/")).take maxKeys)

theorem erased_of_purge {purged : Backends} {count : Nat} (hoss : state.storage.oss = true)
    (h : (purgeSiteInner p state siteId).run serve b = (.ok (.ok count), purged)) :
    Erased b.stores.objects b.refused (Covered state siteId b) purged := by
  by_cases hfinds : ScanFinds state siteId b
  · obtain ⟨keys, hmem, hrun⟩ := run_purgeSiteInner_of_found hfinds
    refine (ensures_onStores (ensures_deleteMany p keys hoss) _ _ purged ⟨rfl, rfl⟩
      (hrun.symm.trans h) count rfl).congr fun path => ?_
    constructor
    · rintro ⟨key, hkey, hpath⟩
      exact ⟨fun _ => ⟨key, (hmem key).1 hkey, hpath⟩, fun hnot => absurd hfinds hnot⟩
    · intro hcovered
      obtain ⟨key, hkey, hpath⟩ := hcovered.1 hfinds
      exact ⟨key, (hmem key).2 hkey, hpath⟩
  · obtain ⟨b', hstores, hrun⟩ := run_purgeSiteInner_of_not hfinds
    refine (ensures_deleteSiteOssOnly p siteId hoss b.stores b.refused b' _ purged hstores
      (hrun.symm.trans h) count rfl).congr fun path => ?_
    exact ⟨fun hin => ⟨fun hyes => absurd hyes hfinds, fun _ => hin⟩, fun hcovered =>
      hcovered.2 hfinds⟩

/-- **Purging a site.** After a site purge that reports success nothing of the site can be read
exactly if the purge got to every body of the site and S3 refused none. -/
theorem unreadable_iff_covered (p : Profile) (state : AdminState) (siteId : Str)
    (b purged : Backends)
    (count : Nat) (h : (purgeSiteInner p state siteId).run serve b = (.ok (.ok count), purged)) :
    Unreadable p state.storage siteId purged ↔
      (state.storage.oss = true → ∀ key path,
        (cacheObjectPath siteId key : Exec Empty Str) = .ok path →
        (b.stores.objects.lookup path).isSome →
          Covered state siteId b path ∧ path ∉ b.refused) := by
  rw [unreadable_iff]
  refine forall_congr' fun hoss => forall₂_congr fun key path => forall_congr' fun hpath => ?_
  have herased := erased_of_purge hoss h
  constructor
  · intro habsent hsome
    by_contra hnot
    rw [← herased.kept path hnot, habsent] at hsome
    cases hsome
  · intro hcovered
    by_cases hin : Covered state siteId b path ∧ path ∉ b.refused
    · exact herased.gone path hin.1 hin.2
    · rw [Absent, herased.kept path hin, ← Option.not_isSome_iff_eq_none]
      exact fun hsome => hin (hcovered hsome)

def oneSite : AdminState := ⟨.full, true, ["site"], fun _ => [], []⟩

def afterRun (events : List CacheEvent) : Backends :=
  ⟨(run .release events (.empty ⟨0, Clock.zero_bound⟩)).stores, onePage, [], []⟩

def purgedSite (events : List CacheEvent) : Except Fault (Except String Nat) × Backends :=
  (purgeSiteInner .release oneSite "site").run serve (afterRun events)

theorem unreadable_iff_covered_page :
    (purgedSite [.put CacheSystem.notFoundPage]).1 = .ok (.ok 0) ∧
      (Unreadable .release .full "site" (purgedSite [.put CacheSystem.notFoundPage]).2 ↔
        (true = true → ∀ key path, (cacheObjectPath "site" key : Exec Empty Str) = .ok path →
          ((afterRun [.put CacheSystem.notFoundPage]).stores.objects.lookup path).isSome →
            Covered oneSite "site" (afterRun [.put CacheSystem.notFoundPage]) path ∧
              path ∉ [])) := by
  refine ⟨by decide +kernel, unreadable_iff_covered .release oneSite _ _ _ 0 (Prod.ext ?_ rfl)⟩
  decide +kernel

def otherPage : Write := { notFoundPage with cacheKey := "1a2b", builtAt :=
    ⟨11000, elevenSeconds_bound⟩ }

/-- The `SCAN` finds the second page only, and the expired one is still served. -/
theorem unreadable_fails :
    (purgedSite (CacheSystem.expiredRun ++ [.put otherPage])).1 = .ok (.ok 0) ∧
      ((onStores (CacheStorage.full.getWithStale .release "site" "0f3c")).run serve
          (purgedSite (CacheSystem.expiredRun ++ [.put otherPage])).2).1
        = .ok (some (⟨CacheStorage.fallbackMeta 11 CacheSystem.notFoundPage.body,
            CacheSystem.notFoundPage.body⟩, false)) ∧
      ¬ Unreadable .release .full "site"
      (purgedSite (CacheSystem.expiredRun ++ [.put otherPage])).2 := by
  refine ⟨by decide +kernel, by decide +kernel, fun h => ?_⟩
  exact h "0f3c" _ (.refl _) (⟨fallbackMeta 11 notFoundPage.body, notFoundPage.body⟩, false)
    (by decide +kernel)

end Backends

/-! ## Site purges at the same time -/

/-- A request to purge a site that exists, the id that its task gets and the time. -/
structure SitePurge where
  siteId : Str
  taskId : Str
  now : Int

structure PurgeEnd where
  taskId : Str
  now : Int
  result : Except String Nat

namespace PurgeTaskTracker

/-- A request looks for a running task, and registers its own later. -/
def sitePurges : Protocol (List PurgeTaskStatus) SitePurge PurgeEnd where
  check a tasks := !hasActiveForSite a.siteId tasks
  act a := insert a.now ⟨a.taskId, a.siteId, .running, 0, a.now, none, none⟩
  other e :=
    match e.result with
    | .ok keysDeleted => updateCompleted e.now e.taskId keysDeleted
    | .error message => updateFailed e.now e.taskId message

theorem purgeCacheSite_eq {state : AdminState} {a : SitePurge}
    (hvalid : validateSiteId a.siteId = .ok ())
    (hsite : state.sites.contains a.siteId = true) (h : sitePurges.check a state.tasks = true) :
    purgeCacheSite state a.taskId a.siteId = (onStores timestamp >>= fun now =>
      return (202, .site a.siteId a.taskId, sitePurges.act { a with now } state.tasks)) := by
  have hfree : hasActiveForSite a.siteId state.tasks = false := by simpa [sitePurges] using h
  unfold purgeCacheSite
  rw [hvalid, hsite, hfree]
  rfl

def runningFor (siteId : Str) (tasks : List PurgeTaskStatus) : Nat :=
  tasks.countP fun t => t.siteId = siteId && t.status = .running

/-- With at most `n` requests at a time, a site has never more than one running purge. -/
def OnePerSite (n : Nat) :
    Prop := ∀ steps siteId, runningFor siteId (Race.run sitePurges n steps []).shared ≤ 1

variable {tasks : List PurgeTaskStatus}

theorem check_iff {a : SitePurge} :
    sitePurges.check a tasks = true ↔ runningFor a.siteId tasks = 0 := by
  rw [runningFor, countP_eq_zero, ← any_eq_false, ← Bool.not_eq_true']
  rfl

theorem runningFor_insert (siteId : Str) (now : Int) (status : PurgeTaskStatus) :
    runningFor siteId (insert now status tasks) ≤
      runningFor siteId tasks + if status.siteId = siteId then 1 else 0 := by
  rw [insert, runningFor, countP_append, countP_singleton]
  refine Nat.add_le_add (filter_sublist.trans filter_sublist).countP_le ?_
  split_ifs <;> simp_all

theorem runningFor_other (siteId : Str) (e : PurgeEnd) :
    runningFor siteId (sitePurges.other e tasks) ≤ runningFor siteId tasks := by
  have hupdate : ∀ f : PurgeTaskStatus → PurgeTaskStatus, (∀ t, (f t).status ≠ .running) →
      runningFor siteId (update e.taskId f tasks) ≤ runningFor siteId tasks := by
    intro f hf
    rw [update, runningFor, countP_map]
    refine countP_mono_left fun t _ h => ?_
    rw [Function.comp_apply] at h
    split at h
    next => simp [hf] at h
    next => exact h
  obtain ⟨taskId, now, result⟩ := e
  cases result with
  | ok | error => exact hupdate _ nofun

def twoRequests : List (RaceStep SitePurge PurgeEnd) :=
  [.check ⟨['s'], ['a'], 0⟩, .check ⟨['s'], ['b'], 0⟩, .act 0, .act 0]

theorem onePerSite_iff (n : Nat) : OnePerSite n ↔ n ≤ 1 := by
  constructor
  · intro h
    by_contra hn
    have hboth := h twoRequests ['s']
    rw [twoRequests, Race.run_both (Nat.not_le.1 hn) rfl rfl] at hboth
    exact absurd hboth (by decide)
  · intro hn steps
    refine Race.run_keeps (I := fun tasks => ∀ siteId, runningFor siteId tasks ≤ 1)
      hn ?_ ?_ ?_ steps
      fun _ => Nat.zero_le _
    · intro a tasks hcheck hone siteId
      refine (runningFor_insert ..).trans ?_
      split
      next heq => rw [← heq, check_iff.1 hcheck]
      next => exact hone siteId
    · exact fun e tasks hone siteId => (runningFor_other ..).trans (hone siteId)
    · intro a e tasks hcheck
      rw [check_iff] at *
      exact Nat.le_zero.1 (hcheck ▸ runningFor_other ..)

/-- Both requests find no running purge. -/
theorem onePerSite_two_requests :
    validateSiteId ['s'] = .ok () ∧ runningFor ['s']
    (Race.run sitePurges 2 twoRequests []).shared = 2 := by
  decide +kernel

end PurgeTaskTracker

end Nozdormu.Admin
