import Mathlib.Data.Finset.Erase
import Mathlib.Data.Finset.Insert
import Nozdormu.Data.Separator
import Nozdormu.Proxy.Redirects

/-!
# Prefetching

`cdn-streaming/src/prefetch`: the segments that a manifest lists are fetched before a player asks
for them. Their URLs are cut out of `ctx.uri`, which holds the query of the request and, in absolute
form, scheme and authority once more: `extractHlsSegments_iff` says which requests survive that.
-/

namespace Nozdormu.Proxy

open Data Rust List

/-! ## Segments of a manifest -/

def resolveUrl (url baseUrl : Str) : Str :=
  if ["http://", "https://", "//"].any fun pre => (stripStart pre.toList url).isSome then url
  else if url.head? = some '/' then
    ((splitOnce "://" baseUrl).bind fun base => (splitOnce ['/'] base.2).map fun authority =>
      base.1 ++ "://" ++ (authority.1 ++ url)).getD url
  else ((rsplitOnce '/' baseUrl).map fun base => base.1 ++ '/' :: url).getD url

/-- One line of the loop of `extract_hls_segments`: the segments so far, and `next_is_segment`. -/
def hlsLine (resolve : Str → Str) (s : List Str × Bool) (line : Str) : List Str × Bool :=
  if (stripStart "#EXTINF:" (trim line)).isSome then (s.1, true)
  else if s.2 ∧ trim line ≠ [] ∧
    (trim line).head? ≠ some '#' then (s.1 ++ [resolve (trim line)], false)
  else s

/-- `lines` also cuts off a carriage return, as `trim` does. -/
def extractHlsSegments (manifest baseUrl : Str) : List Str :=
  ((manifest.splitOn '\n').foldl (hlsLine (resolveUrl · baseUrl)) ([], false)).1

/-- The URIs of the segments, as they stand in the manifest. -/
def segmentUris (manifest : Str) :
    List Str := ((manifest.splitOn '\n').foldl (hlsLine id) ([], false)).1

theorem extractHlsSegments_eq (manifest baseUrl : Str) :
    extractHlsSegments manifest baseUrl = (segmentUris manifest).map (resolveUrl · baseUrl) := by
  refine (foldl_rel (r := fun s t : List Str × Bool => s.1 = t.1.map (resolveUrl · baseUrl) ∧
    s.2 = t.2) ⟨rfl, rfl⟩
    fun line _ s t h => ?_).1
  unfold hlsLine
  rw [h.1, h.2]
  split
  · exact ⟨rfl, rfl⟩
  · split
    · exact ⟨by rw [map_append, map_singleton, id], rfl⟩
    · exact h

/-- A request for a manifest, whose path is `dir/file`. -/
structure ManifestRequest extends Target where
  dir : Str
  file : Str
  /-- with its question mark, or empty -/
  query : Str
  host_chars : '/' ∉ toTarget.host
  pathQuery_eq : pathQuery = dir ++ '/' :: (file ++ query)
  dir_slash : dir = [] ∨ dir.head? = some '/'
  path_chars : '?' ∉ dir ∧ '?' ∉ file ∧ '/' ∉ file
  query_mark : query = [] ∨ query.head? = some '?'

/-- A relative URI with a path of its own. -/
structure RelativeUri (uri : Str) : Prop where
  authority : stripStart "//".toList uri = none
  scheme : ':' ∉ uri.takeWhile (· ∉ "/?#".toList)
  path : uri.takeWhile (· ∉ "?#".toList) ≠ []

theorem RelativeUri.not_absolute {uri : Str} (h : RelativeUri uri) :
    ¬(["http://", "https://", "//"].any fun pre => (stripStart pre.toList uri).isSome) = true := by
  have hnone : ∀ front : Str, ':' ∈ front.takeWhile (· ∉ "/?#".toList) →
      stripStart (front ++ "//".toList) uri = none := by
    intro front hfront
    refine Option.eq_none_iff_forall_ne_some.2 fun rest hrest => h.scheme ?_
    rwa [stripStart_eq_some_iff.1 hrest, append_assoc, show "//".toList ++ rest =
      '/' :: '/' :: rest from rfl,
      takeWhile_append_stop (by decide)]
  have hhttp : stripStart "http://".toList uri = none := hnone "http:".toList (by decide)
  have hhttps : stripStart "https://".toList uri = none := hnone "https:".toList (by decide)
  simp only [any_cons, any_nil, hhttp, hhttps, h.authority]
  decide

namespace ManifestRequest

variable (r : ManifestRequest)

def origin : Str := r.scheme.text ++ "://" ++ r.host

def baseUrl : Str := r.scheme.text ++ "://" ++ (r.host ++ r.uri)

/-- What a player makes of a relative URI, before dot segments are removed. -/
def playerUrl (uri : Str) :
    Str := r.origin ++ if uri.head? = some '/' then uri else r.dir ++ '/' :: uri

theorem dir_cons (s : Str) : ∃ rest, r.dir ++ '/' :: s = '/' :: rest := by
  obtain h | h := r.dir_slash
  · exact ⟨s, by rw [h, nil_append]⟩
  · obtain ⟨rest, h⟩ := List.head?_eq_some_iff.1 h
    exact ⟨_, by rw [h, cons_append]⟩

theorem uri_of_origin (hform : r.absolute = false) : r.uri = r.dir ++ '/' :: (r.file ++ r.query) :=
  (if_neg (by rw [hform]; decide)).trans r.pathQuery_eq

theorem uri_of_absolute (hform : r.absolute = true) :
    r.uri = r.scheme.text ++ "://" ++ (r.host ++ r.pathQuery) := if_pos hform

variable {uri : Str} (h : RelativeUri uri)
include h

theorem resolveUrl_rooted_iff (huri : uri.head? = some '/') :
    resolveUrl uri r.baseUrl = r.origin ++ uri ↔ r.absolute = false := by
  have hscheme : ':' ∉ r.scheme.text ∧ '/' ∉ r.scheme.text := by cases r.scheme <;> decide
  have hcut : splitOnce "://" r.baseUrl = some (r.scheme.text, r.host ++ r.uri) :=
    splitOnce_append hscheme.1 _
  rw [resolveUrl, if_neg h.not_absolute, if_pos huri, hcut, Option.bind_some]
  cases hform : r.absolute with
  | false =>
    obtain ⟨rest, hpath⟩ := r.dir_cons (r.file ++ r.query)
    rw [r.uri_of_origin hform, hpath, splitOnce_cons r.host_chars, origin, append_assoc]
    exact iff_of_true rfl rfl
  | true =>
    -- what is taken for the host goes on to the second scheme
    have hrest : r.host ++ r.uri = r.host ++ r.scheme.text ++ [':'] ++ '/' ::
        ('/' :: (r.host ++ r.pathQuery)) := by
      simp [r.uri_of_absolute hform]
    rw [hrest, splitOnce_cons (by simp [r.host_chars, hscheme.2])]
    refine iff_of_false (fun heq => ?_) (by decide)
    have hlength := congrArg List.length heq
    simp [origin] at hlength
    omega

theorem resolveUrl_sibling_iff (huri : uri.head? ≠ some '/') :
    resolveUrl uri r.baseUrl = r.origin ++ (r.dir ++ '/' :: uri) ↔ r.absolute = false ∧
      '/' ∉ r.query := by
  have hbase : r.baseUrl = r.origin ++ r.uri := (append_assoc ..).symm
  -- it is found from behind
  obtain ⟨b, a, hrev, hb⟩ := eq_append_cons_of_mem
    (mem_reverse.2 (by simp [baseUrl] : '/' ∈ r.baseUrl))
  have hsplit : r.baseUrl = a.reverse ++ '/' :: b.reverse := by
    simpa using congrArg List.reverse hrev
  rw [resolveUrl, if_neg h.not_absolute, if_neg huri, rsplitOnce, hrev, splitOnce_cons hb,
    Option.map_some,
    Option.map_some, Option.getD_some, ← append_assoc, append_left_inj]
  rw [← mem_reverse] at hb
  constructor
  · intro hdir
    have htarget : r.uri = r.dir ++ '/' :: b.reverse := by
      rw [← append_cancel_left_eq r.origin, ← hbase, ← append_assoc, ← hdir, hsplit]
    cases hform : r.absolute with
    | false =>
      rw [r.uri_of_origin hform, append_cancel_left_eq, cons_inj_right] at htarget
      exact ⟨rfl, fun hq => hb (htarget ▸ mem_append_right _ hq)⟩
    | true =>
      obtain ⟨rest, hrest⟩ := r.dir_cons b.reverse
      rw [r.uri_of_absolute hform, hrest] at htarget
      cases hname : r.scheme <;> rw [hname] at htarget <;> cases htarget
  · rintro ⟨hform, hq⟩
    rw [hbase, r.uri_of_origin hform, ← append_assoc] at hsplit
    exact (append_cons_inj_right (by simp [hq, r.path_chars]) hb hsplit).1.symm

end ManifestRequest

/-- **The segments a player asks for.** Each relative URI of a manifest becomes the URL that a
player makes of it exactly if the request was in origin form and, unless the URI begins with a
slash, its query holds none. -/
theorem extractHlsSegments_iff (r : ManifestRequest) (manifest : Str) :
    List.Forall₂ (fun uri url => RelativeUri uri → url = r.playerUrl uri) (segmentUris manifest)
      (extractHlsSegments manifest r.baseUrl) ↔
    ∀ uri ∈ segmentUris manifest, RelativeUri uri → r.absolute = false ∧
    (uri.head? = some '/' ∨ '/' ∉ r.query) := by
  rw [extractHlsSegments_eq, forall₂_map_right_iff, forall₂_same]
  refine forall₂_congr fun uri _ => forall_congr' fun h => ?_
  unfold ManifestRequest.playerUrl
  by_cases huri : uri.head? = some '/'
  · rw [if_pos huri, r.resolveUrl_rooted_iff h huri, and_iff_left (.inl huri)]
  · rw [if_neg huri, r.resolveUrl_sibling_iff h huri, or_iff_right huri]

/-- A token with a slash takes the place of the directory. -/
theorem extractHlsSegments_fails :
    extractHlsSegments "#EXTINF:6,\nseg1.ts" (ManifestRequest.baseUrl
      { scheme := .http, name := "a.com", pathQuery := "/live/index.m3u8?token=x/y"
        dir := "/live", file := "index.m3u8", query := "?token=x/y"
        host_chars := by decide, pathQuery_eq := by
          decide, dir_slash := by decide, path_chars := by decide
        query_mark := by decide }) =
      ["http://a.com/live/index.m3u8?token=x/seg1.ts"] := by
  decide +kernel

/-! ## Fetching them -/

variable {ι κ : Type} [DecidableEq ι] [DecidableEq κ]

inductive FetchPhase where
  | waiting
  | running
  /-- the key is removed, the permit is still held -/
  | leaving
  deriving DecidableEq

structure FetchTask (ι κ : Type) where
  site : ι
  /-- `concurrency_limit` of the call -/
  limit : Nat
  key : κ
  phase : FetchPhase := .waiting
  deriving DecidableEq

structure PrefetchWorker (ι κ : Type) where
  /-- the free permits -/
  siteSemaphores : ι → Option Nat := fun _ => none
  inFlight : Finset κ := ∅
  calls : List (ι × Nat) := []
  tasks : Multiset (FetchTask ι κ) := 0

inductive PrefetchEvent (ι κ : Type) where
  /-- the task of a call gets the semaphore -/
  | call (site : ι) (limit : Nat)
  /-- it comes to a segment -/
  | segment (call : ι × Nat) (key : κ)
  /-- the task of a segment goes on -/
  | resume (t : FetchTask ι κ)

namespace PrefetchWorker

def permits (s : PrefetchWorker ι κ) (site : ι) : Nat := (s.siteSemaphores site).getD 0

def step (s : PrefetchWorker ι κ) : PrefetchEvent ι κ → PrefetchWorker ι κ
  | .call site limit =>
    -- `or_insert_with`: a semaphore that is there stays as it is
    { s with
      siteSemaphores := Function.update s.siteSemaphores site
        (some ((s.siteSemaphores site).getD limit))
      calls := (site, limit) :: s.calls }
  | .segment call key =>
    if call ∈ s.calls ∧ key ∉ s.inFlight then
      { s with
        inFlight := insert key s.inFlight
        tasks := { site := call.1, limit := call.2, key } ::ₘ s.tasks }
    else s
  | .resume t =>
    if t ∈ s.tasks then
      match t.phase with
      | .waiting =>
        if s.permits t.site = 0 then s
        else { s with
          siteSemaphores := Function.update s.siteSemaphores t.site (some (s.permits t.site - 1))
          tasks := { t with phase := .running } ::ₘ s.tasks.erase t }
      -- cached already, fetched or failed
      | .running => { s with
          inFlight := s.inFlight.erase t.key
          tasks := { t with phase := .leaving } ::ₘ s.tasks.erase t }
      | .leaving => { s with
          siteSemaphores := Function.update s.siteSemaphores t.site (some (s.permits t.site + 1))
          tasks := s.tasks.erase t }
    else s

def running (site : ι) (tasks : Multiset (FetchTask ι κ)) : Nat :=
  tasks.countP fun t => t.site = site ∧ t.phase ≠ .waiting

/-- The keys of the tasks that fetch, or will. -/
def fetched (tasks : Multiset (FetchTask ι κ)) : Multiset κ :=
    (tasks.filter (·.phase ≠ .leaving)).map (·.key)

/-- One fetch for a key, none beyond the limit of its call, and nothing is left in flight. -/
structure Sound (s : PrefetchWorker ι κ) : Prop where
  once : (fetched s.tasks).Nodup
  limited : ∀ t ∈ s.tasks, t.phase = .waiting → s.permits t.site ≠ 0 →
    running t.site s.tasks < t.limit
  emptied : s.tasks = 0 → s.inFlight = ∅

/-- The permits of a site, free or held, are `limit`. -/
structure Orderly (limit : ι → Nat) (s : PrefetchWorker ι κ) : Prop where
  inFlight : s.inFlight.val = fetched s.tasks
  permits : ∀ site, (s.siteSemaphores site).getD (limit site) + running site s.tasks = limit site
  calls : ∀ c ∈ s.calls, c.2 = limit c.1
  tasks : ∀ t ∈ s.tasks, t.limit = limit t.site

omit [DecidableEq κ] in
theorem running_cons (site : ι) (t : FetchTask ι κ) (tasks : Multiset (FetchTask ι κ)) :
    running site (t ::ₘ tasks) = running site tasks + if t.site = site ∧
      t.phase ≠ .waiting then 1 else 0 :=
  Multiset.countP_cons ..

variable {limit : ι → Nat} {s : PrefetchWorker ι κ} (h : s.Orderly limit)
include h

omit [DecidableEq κ] in
theorem Orderly.permits_add (site : ι) (hsome : s.permits site ≠ 0 ∨ running site s.tasks ≠ 0) :
    s.permits site + running site s.tasks = limit site := by
  have hpermits := h.permits site
  unfold PrefetchWorker.permits at *
  cases hsem : s.siteSemaphores site <;> simp_all

omit [DecidableEq κ] in
theorem Orderly.sound : s.Sound := by
  refine ⟨h.inFlight ▸ s.inFlight.nodup, fun t ht _ hfree => ?_, fun hnil => ?_⟩
  · have hadd := h.permits_add t.site (.inl hfree)
    rw [h.tasks t ht]
    omega
  · rw [← Finset.val_eq_zero, h.inFlight, hnil]
    rfl

omit [DecidableEq κ] in
theorem Orderly.permits_update {rest tasks : Multiset (FetchTask ι κ)} {t : FetchTask ι κ} {p : Nat}
    (hrest : s.tasks = t ::ₘ rest) (hself : p + running t.site tasks = limit t.site)
    (hother : ∀ site, t.site ≠ site → running site tasks = running site rest) (site : ι) :
    (Function.update s.siteSemaphores t.site (some p) site).getD (limit site) + running site tasks =
      limit site := by
  by_cases hsite : t.site = site
  · subst hsite
    rwa [Function.update_self]
  · have hpermits := h.permits site
    rw [hrest, running_cons, if_neg fun hboth => hsite hboth.1] at hpermits
    rwa [Function.update_of_ne (Ne.symm hsite), hother site hsite]

theorem Orderly.resume (t : FetchTask ι κ) : (s.step (.resume t)).Orderly limit := by
  unfold step
  dsimp only
  split
  next ht =>
    obtain ⟨rest, hrest⟩ := Multiset.exists_cons_of_mem ht
    have hflight := h.inFlight
    have hadd := h.permits_add t.site
    have hlimits := h.tasks
    rw [hrest] at hflight hadd hlimits ⊢
    rw [Multiset.erase_cons_head]
    split
    next hphase =>
      split
      · exact h
      next hfree =>
        have hsum := hadd (.inl hfree)
        refine ⟨?_, h.permits_update hrest ?_ fun site hne => ?_, h.calls, ?_⟩
        · simpa [fetched, hphase] using hflight
        · rw [running_cons, if_neg (by simp [hphase])] at hsum
          rw [running_cons, if_pos ⟨rfl, nofun⟩]
          omega
        · rw [running_cons, if_neg fun hboth => hne hboth.1, Nat.add_zero]
        · simpa using hlimits
    next hphase =>
      refine ⟨?_, fun site => ?_, h.calls, ?_⟩
      · rw [Finset.erase_val, hflight]
        simp [fetched, hphase]
      · have hpermits := h.permits site
        rw [hrest, running_cons] at hpermits
        simpa [running_cons, hphase] using hpermits
      · simpa using hlimits
    next hphase =>
      have hsum := hadd (.inr (by simp [running_cons, hphase]))
      refine ⟨?_, h.permits_update hrest ?_ fun site _ => rfl, h.calls, ?_⟩
      · simpa [fetched, hphase] using hflight
      · rw [running_cons, if_pos (by simp [hphase])] at hsum
        show _ + running t.site rest = _
        omega
      · exact (Multiset.forall_mem_cons.1 hlimits).2
  next => exact h

omit h

/-- **One fetch for a key, within the limit.** So it is in every run in which the configuration of a
site has the same limit in all calls. -/
theorem prefetch_sound (limit : ι → Nat) (events : List (PrefetchEvent ι κ))
    (hsame : ∀ site l, .call site l ∈ events → l = limit site) : (events.foldl step {}).Sound := by
  suffices horderly : (events.foldl step {}).Orderly limit from horderly.sound
  refine List.foldlRecOn events step ⟨rfl, fun _ => rfl, nofun, nofun⟩ ?_
  intro s h e he
  cases e with
  | call site l =>
    have hl := hsame site l he
    refine ⟨h.inFlight, fun x => Eq.trans ?_ (h.permits x),
      forall_mem_cons.2 ⟨hl, h.calls⟩, h.tasks⟩
    congr 1
    by_cases hx : x = site
    · simp [step, hx, hl]
    · simp [step, hx]
  | segment call key =>
    unfold step
    dsimp only
    split
    next hcall =>
      refine ⟨?_, fun site => ?_, h.calls, ?_⟩
      · rw [Finset.insert_val_of_notMem hcall.2, h.inFlight]
        simp [fetched]
      · rw [running_cons, if_neg (by simp)]
        exact h.permits site
      · simpa using ⟨h.calls call hcall.1, h.tasks⟩
    next => exact h
  | resume t => exact h.resume t

/-- A call with the limit 2, then two segments of one with the limit 1: the second starts beside the
first. -/
theorem prefetch_sound_fails :
    let fetch (key : Nat) : FetchTask Unit Nat := { site := (), limit := 1, key }
    let s := [.call () 2, .call () 1, .segment ((), 1) 0, .segment ((), 1) 1,
      .resume (fetch 0)].foldl step {}
    fetch 1 ∈ s.tasks ∧ s.permits () = 1 ∧ running () s.tasks = 1 := by
  decide

/-- One fetch at a time for the first site, two for the second. -/
def twoLimits (site : Bool) : Nat := if site then 2 else 1

def fetchFor (site : Bool) (key : Nat) : FetchTask Bool Nat :=
    { site, limit := twoLimits site, key }

/-- Three calls for two sites. -/
def twoSites : List (PrefetchEvent Bool Nat) :=
  [.call false 1, .segment (false, 1) 0, .segment (false, 1) 1, .call true 2, .segment (true, 2) 1,
    .segment (true, 2) 2, .resume (fetchFor false 0), .resume (fetchFor false 1), .call false 1,
    .segment (false, 1) 3, .resume (fetchFor true 2)]

theorem prefetch_sound_two_sites :
    let s := twoSites.foldl step {}
    s.Sound ∧ s.inFlight = {0, 1, 2, 3} ∧ fetchFor false 1 ∈ s.tasks ∧ s.permits false = 0 ∧
      running false s.tasks = 1 ∧ s.permits true = 1 ∧ running true s.tasks = 1 := by
  refine ⟨prefetch_sound twoLimits twoSites ?_, by decide⟩
  intro site l hcall
  simp only [twoSites, mem_cons, PrefetchEvent.call.injEq, reduceCtorEq, not_mem_nil,
    false_or, or_false] at hcall
  rcases hcall with ⟨rfl, rfl⟩ | ⟨rfl, rfl⟩ | ⟨rfl, rfl⟩ <;> rfl

end PrefetchWorker

end Nozdormu.Proxy
