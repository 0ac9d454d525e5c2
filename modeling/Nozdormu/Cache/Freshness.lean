import Nozdormu.Cache.StorageRuns

/-!
# Freshness over whole runs

A read that finds a body without metadata invents some: status 200, no headers, fresh for another
minute. Metadata goes when its time in Redis is over, which is the moment the entry expires, and
when a late background `DEL` hits metadata that was written since. `readRight_iff` says when a read
is right nevertheless, `staleRead_iff` when the stale window is kept.
-/

namespace Nozdormu.Cache

open Rust Bmff Stores CacheStorage List

/-! ## What a read finds -/

variable {r : CachedResponse}

section Reads

variable {p : Profile} {siteId key path : Str} {s : Stores} {found : CacheMeta}

theorem run_readWithoutMeta (path : Str) (s : Stores) : (readWithoutMeta path).run serve s
      = (.ok ((s.objects.lookup path).map fun body =>
          ⟨fallbackMeta s.clock.timestamp body, body⟩), s) := by
  simp only [readWithoutMeta, Task.perform_bind, Task.run_call, serve]
  cases s.objects.lookup path <;> rfl

theorem run_readFresh (key path : Str) (found : CacheMeta) (s : Stores) :
    ((readFresh key path found).run serve s).1
      = .ok ((s.objects.lookup path).map fun body => ⟨found, body⟩) := by
  simp only [readFresh, Task.perform_bind, Task.run_call, serve]
  cases s.objects.lookup path <;> rfl

theorem run_readExpired {deadline : Int}
    (hdeadline : (p.signed 64 (found.expiresAt + found.staleWhileRevalidate.toInt64.toInt)
      : Exec Empty Int) = .ok deadline) :
    ((readExpired p key path found s.clock.timestamp).run serve s).1
      = .ok (if 0 < found.staleWhileRevalidate ∧ s.clock.timestamp < deadline then
          (s.objects.lookup path).map fun body => ⟨found, body⟩ else none) := by
  unfold readExpired
  rw [hdeadline]
  show (Task.run _ (if _ then _ else _) s).1 = _
  split
  · simp only [Task.perform_bind, Task.run_call, serve]
    cases s.objects.lookup path <;> rfl
  · rfl

theorem run_readExpired_fault {f : Fault}
    (hdeadline : (p.signed 64 (found.expiresAt + found.staleWhileRevalidate.toInt64.toInt)
      : Exec Empty Int) = .error (.fault f)) :
    ((readExpired p key path found s.clock.timestamp).run serve s).1 = .error f := by
  unfold readExpired
  rw [hdeadline]
  rfl

theorem of_readExpired (h : ((readExpired p key path found s.clock.timestamp).run serve s).1
      = .ok (some r)) : s.objects.lookup path = some r.body ∧ r.metadata = found := by
  cases hdeadline : (p.signed 64 (found.expiresAt + found.staleWhileRevalidate.toInt64.toInt)
      : Exec Empty Int) with
  | error stop =>
    cases stop with
    | err e => cases e
    | fault f =>
      rw [run_readExpired_fault hdeadline] at h
      cases h
  | ok deadline =>
    rw [run_readExpired hdeadline] at h
    split at h
    · obtain ⟨body, hbody, rfl⟩ := Option.map_eq_some_iff.1 (Except.ok.inj h)
      exact ⟨hbody, rfl⟩
    · cases h

theorem path_of_getWithStale {answer : Option (CachedResponse × Bool)}
    (h : ((full.getWithStale p siteId key).run serve s).1 = .ok answer) :
    ∃ path, (cacheObjectPath siteId key : Exec Empty Str) = .ok path := by
  cases hpath : cacheObjectPath siteId key with
  | ok path => exact ⟨path, rfl⟩
  | error stop =>
    cases stop with
    | err e => cases e
    | fault f =>
      rw [getWithStale, withEntry, if_pos full_oss, hpath] at h
      cases h

section

variable (hpath : (cacheObjectPath siteId key : Exec Empty Str) = .ok path)
include hpath

theorem run_withEntry {α : Type} {read : (path : Str) → Option CacheMeta → StoreTask (Option α)}
    (s : Stores) :
    (full.withEntry siteId key read).run serve s
      = (read path (s.metaOf (metaKey siteId key))).run serve s := by
  unfold withEntry
  rw [if_pos full_oss, hpath]
  rfl

theorem getWithStale_of_none (hmeta : s.metaOf (metaKey siteId key) = none) :
    ((full.getWithStale p siteId key).run serve s).1 = .ok ((s.objects.lookup path).map fun body =>
          (⟨fallbackMeta s.clock.timestamp body, body⟩, false)) := by
  rw [getWithStale, run_withEntry hpath, hmeta]
  rw [Task.run_bind_of_ok (run_readWithoutMeta path s)]
  cases s.objects.lookup path <;> rfl

theorem getWithStale_of_fresh
    (hmeta : s.metaOf (metaKey siteId key) = some found)
    (hfresh : s.clock.timestamp < found.expiresAt) :
    ((full.getWithStale p siteId key).run serve s).1
      = .ok ((s.objects.lookup path).map fun body => (⟨found, body⟩, false)) := by
  rw [getWithStale, run_withEntry hpath, hmeta]
  show (Task.run _ (if found.expiresAt ≤ s.clock.timestamp then _ else _) s).1 = _
  rw [if_neg (by omega)]
  show (Task.run _ (readFresh _ path found >>= fun r => .done _) s).1 = _
  rw [Task.run_map, run_readFresh]
  cases s.objects.lookup path <;> rfl

theorem getWithStale_of_expired
    (hmeta : s.metaOf (metaKey siteId key) = some found)
    (hexp : found.expiresAt ≤ s.clock.timestamp) :
    ((full.getWithStale p siteId key).run serve s).1
      = ((readExpired p (metaKey siteId key) path found s.clock.timestamp).run
          serve s).1.map (Option.map fun r => (r, true)) := by
  rw [getWithStale, run_withEntry hpath, hmeta]
  show (Task.run _ (if found.expiresAt ≤ s.clock.timestamp then _ else _) s).1 = _
  rw [if_pos hexp]
  show (Task.run _ (readExpired p _ path found _ >>= fun r => .done _) s).1 = _
  rw [Task.run_map]
  rfl

theorem getWithStale_of_get (h : ((full.get siteId key).run serve s).1 = .ok (some r)) :
    ((full.getWithStale p siteId key).run serve s).1 = .ok (some (r, false)) := by
  cases hmeta : s.metaOf (metaKey siteId key) with
  | none =>
    rw [CacheStorage.get, run_withEntry hpath, hmeta, run_readWithoutMeta] at h
    obtain ⟨body, hbody, rfl⟩ := Option.map_eq_some_iff.1 (Except.ok.inj h)
    rw [getWithStale_of_none hpath hmeta, hbody]
    rfl
  | some found =>
    rw [CacheStorage.get, run_withEntry hpath, hmeta] at h
    change (Task.run _ (if found.expiresAt ≤ s.clock.timestamp then _ else _) s).1 = _ at h
    split at h
    next => cases h
    next hfresh =>
      rw [run_readFresh] at h
      obtain ⟨body, hbody, rfl⟩ := Option.map_eq_some_iff.1 (Except.ok.inj h)
      rw [getWithStale_of_fresh hpath hmeta (by omega), hbody]
      rfl

/-- **What a read returns**: the body that is there, with the metadata that is there or, if there
is none, with what the read invents. -/
theorem of_getWithStale {stale : Bool}
    (h : ((full.getWithStale p siteId key).run serve s).1 = .ok (some (r, stale))) :
    s.objects.lookup path = some r.body ∧
      (stale = false → s.clock.timestamp < r.metadata.expiresAt) ∧
      (s.metaOf (metaKey siteId key) = some r.metadata ∨
        s.metaOf (metaKey siteId key) = none ∧
          r.metadata = fallbackMeta s.clock.timestamp r.body) := by
  cases hmeta : s.metaOf (metaKey siteId key) with
  | none =>
    rw [getWithStale_of_none hpath hmeta] at h
    obtain ⟨body, hbody, hr⟩ := Option.map_eq_some_iff.1 (Except.ok.inj h)
    cases hr
    refine ⟨hbody, fun _ => ?_, .inr ⟨rfl, rfl⟩⟩
    show s.clock.timestamp < s.clock.timestamp + 60
    omega
  | some found =>
    by_cases hexp : found.expiresAt ≤ s.clock.timestamp
    · rw [getWithStale_of_expired hpath hmeta hexp] at h
      cases hexpired : ((readExpired p (metaKey siteId key) path found
          s.clock.timestamp).run serve s).1 with
      | error f => rw [hexpired] at h; cases h
      | ok response =>
        rw [hexpired] at h
        obtain ⟨r', rfl, hr'⟩ := Option.map_eq_some_iff.1 (Except.ok.inj h)
        cases hr'
        obtain ⟨hbody, hmetadata⟩ := of_readExpired hexpired
        exact ⟨hbody, nofun, .inl (congrArg some hmetadata.symm)⟩
    · rw [getWithStale_of_fresh hpath hmeta (by omega)] at h
      obtain ⟨body, hbody, hr⟩ := Option.map_eq_some_iff.1 (Except.ok.inj h)
      cases hr
      refine ⟨hbody, fun _ => ?_, .inl rfl⟩
      show s.clock.timestamp < found.expiresAt
      omega

end

end Reads

/-! ## What has been written -/

variable {s : Stores} {found : CacheMeta}

theorem lookup_of_metaOf {key : Str} (h : s.metaOf key = some found) :
    ∃ deadline, s.redis.lookup key = some ⟨.record found, deadline⟩ ∧
      deadline.all (s.clock.millis ≤ ·) = true := by
  unfold metaOf live at h
  cases hentry : (s.redis.lookup key).filter fun e => e.deadline.all fun d =>
    s.clock.millis ≤ d with
  | none => rw [hentry] at h; cases h
  | some e =>
    rw [hentry] at h
    obtain ⟨hlookup, hlive⟩ := Option.filter_eq_some_iff.1 hentry
    obtain ⟨value, deadline⟩ := e
    cases value with
    | members keys => cases h
    | record meta' =>
      cases h
      exact ⟨deadline, hlookup, hlive⟩

theorem metaOf_of_lookup {key : Str} {deadline : Option Nat}
    (h : s.redis.lookup key = some ⟨.record found, deadline⟩)
    (hlive : deadline.all (s.clock.millis ≤ ·) = true) : s.metaOf key = some found := by
  unfold metaOf live
  rw [h, Option.filter_some, if_pos hlive]
  rfl

theorem metaOf_of_lookup_none {key : Str} (h : s.redis.lookup key = none) :
    s.metaOf key = none := by
  unfold metaOf live
  rw [h]
  rfl

/-- Two names that share metadata or a body. -/
def SamePlace (a b : Str × Str) : Prop :=
  metaKey a.1 a.2 = metaKey b.1 b.2 ∨
    ∃ path, (cacheObjectPath a.1 a.2 : Exec Empty Str) = .ok path ∧
      (cacheObjectPath b.1 b.2 : Exec Empty Str) = .ok path

/-- Different names have places of their own. -/
def Distinct (names : List (Str × Str)) : Prop := ∀ a ∈ names, ∀ b ∈ names, SamePlace a b → a = b

variable {names : List (Str × Str)}

/-- Keys of one length, as MD5 digests are, and site ids that stand in the path as they are. -/
theorem distinct_of_length {n : Nat}
    (h : ∀ a ∈ names, a.2.length = n ∧ safeSiteId a.1 = a.1) : Distinct names := by
  intro a ha b hb hsame
  have hlen : a.2.length = b.2.length := (h a ha).1.trans (h b hb).1.symm
  rcases hsame with hmeta | hpath
  · obtain ⟨hsite, hkey⟩ := append_inj' hmeta hlen
    obtain ⟨hsite, -⟩ := append_inj' hsite rfl
    exact Prod.ext (append_cancel_left hsite) hkey
  obtain ⟨path, hpa, hpb⟩ := hpath
  obtain ⟨preA, hpreA, ha'⟩ := bind_eq_ok.1 hpa
  obtain ⟨preB, hpreB, hb'⟩ := bind_eq_ok.1 hpb
  have heq := (Except.ok.inj ha').trans (Except.ok.inj hb').symm
  obtain ⟨hfront, hkey⟩ := append_inj' heq hlen
  rw [hkey] at hpreA
  obtain rfl : preA = preB := ok_unique hpreA hpreB
  have hsite := append_cancel_right (append_cancel_right (append_cancel_right hfront))
  rw [(h a ha).2, (h b hb).2] at hsite
  exact Prod.ext (append_cancel_left hsite) hkey

variable {sys : CacheSystem} {w : Write}

namespace CacheSystem

/-- Whatever the stores still have is of the last write. -/
structure Consistent (names : List (Str × Str)) (sys : CacheSystem) : Prop where
  body : ∀ {path body}, sys.stores.objects.lookup path = some body →
    ∃ w, sys.lastWrite path = some w ∧ w.body = body
  metadata : ∀ {n path found deadline}, n ∈ names →
    (cacheObjectPath n.1 n.2 : Exec Empty Str) = .ok path →
    sys.stores.redis.lookup (metaKey n.1 n.2) = some ⟨.record found, deadline⟩ →
    ∃ w, sys.lastWrite path = some w ∧ w.metadata = found

theorem Consistent.fades
    (h : Consistent names sys) (hs : sys.stores.Fades s) :
      Consistent names { sys with stores := s } where
  body := fun hb => h.body (hs.objects hb)
  metadata := fun hn hpath he => h.metadata hn hpath (hs.redis (not_isTagKey_metaKey _ _) he)

theorem lastWrite_cons (s : Stores) (w : Write) (writes : List Write) (path : Str) :
    lastWrite ⟨s, w :: writes⟩ path
      = if w.path = .ok path then some w else lastWrite ⟨s, writes⟩ path := by
  unfold lastWrite
  by_cases h : w.path = .ok path
  · rw [List.find?_cons_of_pos (by simpa using h), if_pos h]
  · rw [List.find?_cons_of_neg (by simpa using h), if_neg h]

theorem step_put (p : Profile) (w : Write) (sys : CacheSystem) :
    ((∃ stop, w.path = .error stop) ∧ sys.step p (.put w) = ⟨sys.stores, w :: sys.writes⟩) ∨
      ∃ path s, w.path = .ok path ∧ sys.step p (.put w) = ⟨s, w :: sys.writes⟩ ∧
        s.objects = sys.stores.objects.insert path w.body ∧
        s.redis.lookup (metaKey w.siteId w.cacheKey) = some (w.entry sys.stores.clock) ∧
        ∀ key, ¬ IsTagKey key → key ≠ metaKey w.siteId w.cacheKey →
          s.redis.lookup key = sys.stores.redis.lookup key := by
  cases hpath : w.path with
  | error stop =>
    refine .inl ⟨⟨stop, rfl⟩, ?_⟩
    show CacheSystem.mk _ _ = _
    rw [after, run_put_fault p hpath]
  | ok path =>
    obtain ⟨s, hrun, -, hobjects, hentry, hother⟩ := run_put p hpath sys.stores
    refine .inr ⟨path, s, rfl, ?_, hobjects, hentry, hother⟩
    show CacheSystem.mk _ _ = _
    rw [after, hrun]

theorem body_step_put (p : Profile) (w : Write)
    (h : ∀ {path body}, sys.stores.objects.lookup path = some body →
      ∃ w, sys.lastWrite path = some w ∧ w.body = body) {path : Str} {body : Bytes}
    (hbody : (sys.step p (.put w)).stores.objects.lookup path = some body) :
    ∃ w', (sys.step p (.put w)).lastWrite path = some w' ∧ w'.body = body := by
  obtain ⟨⟨stop, hstop⟩, hstep⟩ | ⟨path', s, hpath', hstep, hobjects, -, -⟩ := step_put p w sys
  · rw [hstep] at hbody ⊢
    rw [lastWrite_cons, hstop, if_neg nofun]
    exact h hbody
  rw [hstep] at hbody ⊢
  rw [hobjects] at hbody
  rw [lastWrite_cons, hpath']
  by_cases hp : path = path'
  · rw [hp, AList.lookup_insert] at hbody
    rw [hp, if_pos rfl]
    exact ⟨w, rfl, Option.some.inj hbody⟩
  · rw [AList.lookup_insert_ne hp] at hbody
    rw [if_neg fun heq => hp (Except.ok.inj heq).symm]
    exact h hbody

theorem Consistent.put (hdistinct : Distinct names)
    (hw : (w.siteId, w.cacheKey) ∈ names) (h : Consistent names sys) (p : Profile) :
    Consistent names (sys.step p (.put w)) where
  body := body_step_put p w h.body
  metadata := by
    intro n path found deadline hn hpath hfound
    obtain ⟨⟨stop, hstop⟩, hstep⟩ | ⟨path', s, hpath', hstep, -, hentry, hother⟩ := step_put p w sys
    · rw [hstep] at hfound ⊢
      rw [lastWrite_cons, hstop, if_neg nofun]
      exact h.metadata hn hpath hfound
    rw [hstep] at hfound ⊢
    rw [lastWrite_cons]
    by_cases hname : (w.siteId, w.cacheKey) = n
    · subst hname
      rw [hentry] at hfound
      obtain ⟨hvalue, -⟩ := RedisEntry.mk.inj (Option.some.inj hfound)
      have hwpath : w.path = .ok path := hpath
      rw [if_pos hwpath]
      exact ⟨w, rfl, RedisValue.record.inj hvalue⟩
    · have hmeta : metaKey n.1 n.2 ≠ metaKey w.siteId w.cacheKey := by
        intro heq
        exact hname (hdistinct _ hw n hn (.inl heq.symm))
      rw [hother _ (not_isTagKey_metaKey _ _) hmeta] at hfound
      rw [hpath', if_neg fun heq =>
        hname (hdistinct _ hw n hn (.inr ⟨path, hpath'.trans heq, hpath⟩))]
      exact h.metadata hn hpath hfound

/-- Without any care for which names share a place: bodies are those of the last writes, and
metadata is of some write. -/
structure Written (sys : CacheSystem) : Prop where
  body : ∀ {path body}, sys.stores.objects.lookup path = some body →
    ∃ w, sys.lastWrite path = some w ∧ w.body = body
  record : ∀ {key found deadline}, ¬ IsTagKey key →
    sys.stores.redis.lookup key = some ⟨.record found, deadline⟩ → ∃ w ∈ sys.writes,
      w.metadata = found

theorem written_empty (clock : Clock) : Written (empty clock) where
  body := fun h => by cases h
  record := fun _ h => by cases h

theorem Written.fades (h : Written sys) (hs : sys.stores.Fades s) :
    Written { sys with stores := s } where
  body := fun hb => h.body (hs.objects hb)
  record := fun hkey he => h.record hkey (hs.redis hkey he)

theorem Written.put (h : Written sys) (p : Profile) (w : Write) :
    Written (sys.step p (.put w)) where
  body := body_step_put p w h.body
  record := by
    intro key found deadline hkey hfound
    obtain ⟨-, hstep⟩ | ⟨path, s, -, hstep, -, hentry, hother⟩ := step_put p w sys
    · rw [hstep] at hfound ⊢
      obtain ⟨w', hw', hmeta⟩ := h.record hkey hfound
      exact ⟨w', mem_cons_of_mem _ hw', hmeta⟩
    rw [hstep] at hfound ⊢
    by_cases heq : key = metaKey w.siteId w.cacheKey
    · rw [heq, hentry] at hfound
      obtain ⟨hvalue, -⟩ := RedisEntry.mk.inj (Option.some.inj hfound)
      exact ⟨w, mem_cons_self .., RedisValue.record.inj hvalue⟩
    · rw [hother key hkey heq] at hfound
      obtain ⟨w', hw', hmeta⟩ := h.record hkey hfound
      exact ⟨w', mem_cons_of_mem _ hw', hmeta⟩

/-- What an event that is not a write does: it carries out calls that store nothing, or a background
`DEL`, or it moves the clock on. -/
theorem step_cases (p : Profile) {e : CacheEvent} (he : ∀ w, e ≠ .put w) (sys : CacheSystem) :
    (∃ (α : Type) (t : StoreTask α), t.Only Fading ∧ sys.step p e = sys.after t) ∨
      (∃ key ∈ sys.stores.spawned, sys.step p e = { sys with
          stores := { sys.stores.dropEntry key with spawned := sys.stores.spawned.erase key } }) ∨
      ∃ later : Clock, sys.stores.clock.millis ≤ later.millis ∧
        sys.step p e = { sys with stores := { sys.stores with clock := later } } := by
  cases e with
  | put w => exact absurd rfl (he w)
  | get siteId key => exact .inl ⟨_, _, (only_get ..).mono fun _ => Reading.fading, rfl⟩
  | getWithStale siteId key =>
    exact .inl ⟨_, _, (only_getWithStale ..).mono fun _ => Reading.fading, rfl⟩
  | getRange siteId key start stop =>
    exact .inl ⟨_, _, (only_getRange ..).mono fun _ => Reading.fading, rfl⟩
  | delete siteId key => exact .inl ⟨_, _, (only_delete ..).mono fun _ => Deleting.fading, rfl⟩
  | deleteMany siteId keys =>
    exact .inl ⟨_, _, (only_deleteMany ..).mono fun _ h => h.1.fading, rfl⟩
  | deleteByTag siteId tag => exact .inl ⟨_, _, (only_deleteByTag ..).mono fun _ h => h.1, rfl⟩
  | background key =>
    by_cases hkey : key ∈ sys.stores.spawned
    · exact .inr (.inl ⟨key, hkey, if_pos hkey⟩)
    · exact .inl ⟨Unit, .done (), trivial, if_neg hkey⟩
  | advance later =>
    by_cases hle : sys.stores.clock.millis ≤ later.millis
    · exact .inr (.inr ⟨later, hle, if_pos hle⟩)
    · exact .inl ⟨Unit, .done (), trivial, if_neg hle⟩

theorem fades_step {p : Profile} {e : CacheEvent} (he : ∀ w, e ≠ .put w) (sys : CacheSystem) :
    ∃ s, sys.step p e = { sys with stores := s } ∧ sys.stores.Fades s := by
  rcases step_cases p he sys with ⟨α, t, ht, hstep⟩ | ⟨key, -, hstep⟩ | ⟨later, -, hstep⟩
  · exact ⟨_, hstep, fades_run ht _⟩
  · exact ⟨_, hstep, ⟨id, fun _ h => lookup_dropEntry h⟩⟩
  · exact ⟨_, hstep, ⟨id, fun _ h => h⟩⟩

def writtenNames (events : List CacheEvent) : List (Str × Str) :=
  events.filterMap fun
    | .put w => some (w.siteId, w.cacheKey)
    | _ => none

theorem mem_writtenNames {events : List CacheEvent} (h : .put w ∈ events) :
    (w.siteId, w.cacheKey) ∈ writtenNames events := mem_filterMap.2 ⟨_, h, rfl⟩

theorem run_keeps {p : Profile} {Q : Write → Prop} {P : CacheSystem → Prop}
    (hput : ∀ sys w, Q w → P sys → P (sys.step p (.put w)))
    (hfade : ∀ sys s, sys.stores.Fades s → P sys → P { sys with stores := s }) :
    ∀ (events : List CacheEvent) (sys : CacheSystem), (∀ w, .put w ∈ events → Q w) → P sys →
      P (run p events sys) := by
  intro events sys hwrites h
  refine List.foldlRecOn (motive := P) events _ h fun sys h event hevent => ?_
  by_cases he : ∃ w, event = .put w
  · obtain ⟨w, rfl⟩ := he
    exact hput sys w (hwrites w hevent) h
  · obtain ⟨s, hstep, hfades⟩ := fades_step (fun w hw => he ⟨w, hw⟩) sys
    rw [hstep]
    exact hfade sys s hfades h

/-- An answer from the body at `path` that agrees with the last write of that body, and is not
called fresh once that write has expired. -/
def RightAnswer (sys : CacheSystem) (path : Str) (r : CachedResponse) (stale : Bool) : Prop :=
  ∃ w, sys.lastWrite path = some w ∧ r.body = w.body ∧
    r.metadata.status = w.metadata.status ∧ r.metadata.headers = w.metadata.headers ∧
    (stale = false → sys.stores.clock.timestamp < w.metadata.expiresAt)

structure ReadRight (p : Profile) (sys : CacheSystem) (siteId key path : Str) : Prop where
  get : ∀ r, ((full.get siteId key).run serve sys.stores).1 = .ok (some r) →
    sys.RightAnswer path r false
  getWithStale : ∀ r stale, ((full.getWithStale p siteId key).run serve sys.stores).1
      = .ok (some (r, stale)) → sys.RightAnswer path r stale

/-- Redis has the metadata of the entry, or there is no body, or the entry was written with what a
read invents and has not expired. -/
def Backed (sys : CacheSystem) (siteId key path : Str) : Prop :=
  (sys.stores.metaOf (metaKey siteId key)).isSome ∨ sys.stores.objects.lookup path = none ∨
    ∃ w, sys.lastWrite path = some w ∧ w.metadata.status = 200 ∧ w.metadata.headers = [] ∧
      sys.stores.clock.timestamp < w.metadata.expiresAt

variable {p : Profile} {sys : CacheSystem} {siteId key path : Str}

theorem Backed.of_readRight (hpath : (cacheObjectPath siteId key : Exec Empty Str) = .ok path)
    (h : ReadRight p sys siteId key path) : Backed sys siteId key path := by
  cases hmeta : sys.stores.metaOf (metaKey siteId key) with
  | some found => exact .inl (by rw [hmeta]; rfl)
  | none =>
    cases hbody : sys.stores.objects.lookup path with
    | none => exact .inr (.inl hbody)
    | some body =>
      have hread := getWithStale_of_none (p := p) hpath hmeta
      rw [hbody] at hread
      obtain ⟨w, hw, -, hstatus, hheaders, hfresh⟩ := h.getWithStale _ _ hread
      exact .inr (.inr ⟨w, hw, hstatus.symm, hheaders.symm, hfresh rfl⟩)

theorem Consistent.rightAnswer (h : Consistent names sys) (hname : (siteId, key) ∈ names)
    (hpath : (cacheObjectPath siteId key : Exec Empty Str) = .ok path)
    (hbacked : Backed sys siteId key path) {stale : Bool}
    (hread : ((full.getWithStale p siteId key).run serve sys.stores).1
      = .ok (some (r, stale))) : sys.RightAnswer path r stale := by
  obtain ⟨hbody, hfresh, hmetadata⟩ := of_getWithStale hpath hread
  obtain ⟨w, hw, hbody'⟩ := h.body hbody
  rcases hmetadata with hmeta | ⟨hmeta, hinvented⟩
  · obtain ⟨deadline, hentry, -⟩ := lookup_of_metaOf hmeta
    obtain ⟨w', hw', hfound⟩ := h.metadata hname hpath hentry
    obtain rfl := Option.mem_unique hw hw'
    rw [← hfound] at hfresh
    exact ⟨w, hw, hbody'.symm, by rw [hfound], by rw [hfound], hfresh⟩
  rw [Backed, hmeta] at hbacked
  rcases hbacked with hsome | hnone | ⟨w', hw', hstatus, hheaders, hexp⟩
  · cases hsome
  · cases hnone.symm.trans hbody
  · obtain rfl := Option.mem_unique hw hw'
    exact ⟨w, hw, hbody'.symm, by rw [hinvented, hstatus]; rfl,
      by rw [hinvented, hheaders]; rfl, fun _ => hexp⟩

/-- **Reads over runs.** In every state that a run reaches, a read of an entry is right exactly if
the entry is backed. -/
theorem readRight_iff (p : Profile) (clock : Clock) (events : List CacheEvent)
    (siteId key path : Str) (hpath : (cacheObjectPath siteId key : Exec Empty Str) = .ok path)
    (hdistinct : Distinct ((siteId, key) :: writtenNames events)) :
    ReadRight p (run p events (empty clock)) siteId key path ↔
      Backed (run p events (empty clock)) siteId key path := by
  have hcons : Consistent ((siteId, key) :: writtenNames events) (run p events (empty clock)) :=
    run_keeps (fun _ _ hw h => h.put hdistinct hw p) (fun _ _ hs h => h.fades hs) events _
      (fun _ hw => mem_cons_of_mem _ (mem_writtenNames hw))
        ⟨(fun h => by cases h), fun _ _ h => by cases h⟩
  refine ⟨Backed.of_readRight hpath, fun hbacked => ?_⟩
  have hread : ∀ r stale, ((full.getWithStale p siteId key).run serve
      (run p events (empty clock)).stores).1 = .ok (some (r, stale)) →
      (run p events (empty clock)).RightAnswer path r stale :=
    fun r stale h => hcons.rightAnswer (mem_cons_self ..) hpath hbacked h
  exact ⟨fun r h => hread r false (getWithStale_of_get hpath h), hread⟩

def notFoundPage : Write :=
  { siteId := "site", cacheKey := "0f3c", builtAt := ⟨0, by decide⟩, status := 404
    headers := [("content-type", "text/html")], ttl := 10, staleWhileRevalidate := 0
    tags := [], body := [0x67, 0x6F, 0x6E, 0x65] }

def notFoundPath : Str := "cache/site/0f/0f3c"

theorem elevenSeconds_bound : 11000 < 2 ^ 63 := by decide

def expiredRun : List CacheEvent := [.put notFoundPage, .advance ⟨11000, elevenSeconds_bound⟩]

theorem readRight_iff_notFound :
    (cacheObjectPath "site" "0f3c" : Exec Empty Str) = .ok notFoundPath ∧
      Distinct (("site", "0f3c") :: writtenNames expiredRun) ∧
      (ReadRight .release (run .release expiredRun (empty ⟨0, by decide⟩)) "site" "0f3c"
          notFoundPath ↔
        Backed (run .release expiredRun (empty ⟨0, by decide⟩)) "site" "0f3c"
          notFoundPath) := by
  refine ⟨by decide, distinct_of_length (n := 4) (by decide), ?_⟩
  exact readRight_iff .release ⟨0, by decide⟩ expiredRun _ _ _ (by decide)
    (distinct_of_length (n := 4) (by decide))

/-- One second after it expired the page comes back as fresh, with status 200 and without its
content type. -/
theorem readRight_expired_fails :
    (run .release expiredRun (empty ⟨0, by decide⟩)).lastWrite notFoundPath = some notFoundPage ∧
      notFoundPage.metadata.expiresAt = 10 ∧
      (run .release expiredRun (empty ⟨0, by decide⟩)).stores.clock.timestamp = 11 ∧
      ((CacheStorage.full.getWithStale .release "site" "0f3c").run Stores.serve
          (run .release expiredRun (empty ⟨0, by decide⟩)).stores).1
        = .ok (some (⟨CacheStorage.fallbackMeta 11 notFoundPage.body, notFoundPage.body⟩, false)) ∧
      ¬ ReadRight .release (run .release expiredRun (empty ⟨0, by decide⟩)) "site"
          "0f3c" notFoundPath := by
  refine ⟨by decide +kernel, by decide +kernel, by decide +kernel, by decide +kernel, fun h => ?_⟩
  obtain ⟨w, hw, -, hstatus, -⟩ :=
    h.getWithStale ⟨fallbackMeta 11 notFoundPage.body, notFoundPage.body⟩ false (by decide +kernel)
  cases hw
  exact absurd hstatus (by decide +kernel)

def NotOverwritten (w : Write) (events : List CacheEvent) : Prop :=
  ∀ w', .put w' ∈ events → ¬ SamePlace (w'.siteId, w'.cacheKey) (w.siteId, w.cacheKey)

theorem entry_of_run (written : RedisEntry) (events : List CacheEvent) (sys : CacheSystem)
    (hnot : NotOverwritten w events)
    (h : ∀ e, sys.stores.redis.lookup (metaKey w.siteId w.cacheKey) = some e → e = written) :
    ∀ e, (run p events sys).stores.redis.lookup (metaKey w.siteId w.cacheKey) = some e →
      e = written := by
  refine run_keeps (P := fun sys =>
    ∀ e, sys.stores.redis.lookup (metaKey w.siteId w.cacheKey) = some e → e = written) ?_ ?_
      events sys hnot h
  · intro sys w' hplace h e he
    have hne : metaKey w.siteId w.cacheKey ≠ metaKey w'.siteId w'.cacheKey :=
      fun heq => hplace (.inl heq.symm)
    obtain ⟨-, hstep⟩ | ⟨path', s, -, hstep, -, -, hother⟩ := step_put p w' sys
    · rw [hstep] at he
      exact h e he
    · rw [hstep] at he
      exact h e (hother _ (not_isTagKey_metaKey _ _) hne ▸ he)
  · intro sys s hfades h e he
    exact h e (hfades.redis (not_isTagKey_metaKey _ _) he)

theorem body_of_run {path : Str} (hpath : w.path = .ok path) (events : List CacheEvent)
    (sys : CacheSystem) (hnot : NotOverwritten w events)
    (h : ∀ body, sys.stores.objects.lookup path = some body → body = w.body) :
    ∀ body, (run p events sys).stores.objects.lookup path = some body → body = w.body := by
  refine run_keeps (P := fun sys =>
    ∀ body, sys.stores.objects.lookup path = some body → body = w.body) ?_ ?_ events sys hnot h
  · intro sys w' hplace h body hbody
    obtain ⟨-, hstep⟩ | ⟨path', s, hpath', hstep, hobjects, -, -⟩ := step_put p w' sys
    · rw [hstep] at hbody
      exact h body hbody
    · have hne : path ≠ path' := fun heq => hplace (.inr ⟨path', hpath', heq ▸ hpath⟩)
      rw [hstep, hobjects, AList.lookup_insert_ne hne] at hbody
      exact h body hbody
  · intro sys s hfades h body hbody
    exact h body (hfades.objects hbody)

/-- `get_with_stale` serves the expired entry as stale in its window, and nothing after it. -/
structure StaleServed (p : Profile) (sys : CacheSystem) (w : Write) : Prop where
  inside : sys.stores.clock.timestamp < w.metadata.expiresAt + w.staleWhileRevalidate.toNat →
    ((full.getWithStale p w.siteId w.cacheKey).run serve sys.stores).1
      = .ok (some (⟨w.metadata, w.body⟩, true))
  behind : w.metadata.expiresAt + w.staleWhileRevalidate.toNat ≤ sys.stores.clock.timestamp →
    ((full.getWithStale p w.siteId w.cacheKey).run serve sys.stores).1 = .ok none

theorem toInt_toInt64 (x : UInt64) :
    x.toInt64.toInt = if x.toNat < 2 ^ 63 then (x.toNat : Int) else x.toNat - 2 ^ 64 := by
  show (if 2 * x.toNat < 2 ^ 64 then (x.toNat : Int) else x.toNat - (2 ^ 64 : Nat)) = _
  split <;> split <;> omega

theorem getWithStale_in_range (hpath : w.path = .ok path)
    (hmeta : sys.stores.metaOf (metaKey w.siteId w.cacheKey) = some w.metadata)
    (hbody : sys.stores.objects.lookup path = some w.body) (hswr : 0 < w.staleWhileRevalidate)
    (hexp : w.metadata.expiresAt ≤ sys.stores.clock.timestamp)
    (hend : w.metadata.expiresAt + w.staleWhileRevalidate.toNat < 2 ^ 63) :
    StaleServed p sys w := by
  have hnonneg := w.expiresAt_nonneg
  have hdeadline : (p.signed 64
      (w.metadata.expiresAt + w.metadata.staleWhileRevalidate.toInt64.toInt)
      : Exec Empty Int) = .ok (w.metadata.expiresAt + w.staleWhileRevalidate.toNat) := by
    have hcast : w.metadata.staleWhileRevalidate.toInt64.toInt = w.staleWhileRevalidate.toNat := by
      show w.staleWhileRevalidate.toInt64.toInt = _
      rw [toInt_toInt64, if_pos (by omega)]
    rw [hcast]
    exact signed_ok p (by omega)
  have hread := getWithStale_of_expired (p := p) hpath hmeta hexp
  rw [run_readExpired hdeadline, hbody] at hread
  constructor
  · intro hin
    rw [hread, if_pos ⟨hswr, hin⟩]
    rfl
  · intro hout
    rw [hread, if_neg fun h => absurd h.2 (by omega)]
    rfl

/-- Otherwise the end of the window cannot be computed, or it comes out before its beginning. -/
theorem deadline_of_overflow (p : Profile) {expiresAt : Int} {swr : UInt64}
    (hnonneg : 0 ≤ expiresAt) (hlt : expiresAt < 2 ^ 63) (hend : 2 ^ 63 ≤ expiresAt + swr.toNat) :
    (∃ f, (p.signed 64 (expiresAt + swr.toInt64.toInt) : Exec Empty Int) = .error (.fault f)) ∨
      ∃ deadline ≤ expiresAt, (p.signed 64 (expiresAt + swr.toInt64.toInt) : Exec Empty Int) =
        .ok deadline := by
  have hswr : swr.toNat < 2 ^ 64 := swr.toNat_lt
  by_cases hsmall : swr.toNat < 2 ^ 63
  · -- the sum leaves the range of `i64`
    rw [toInt_toInt64, if_pos hsmall]
    have hout : ¬ (-2 ^ (64 - 1) ≤ expiresAt + swr.toNat ∧ expiresAt + swr.toNat < 2 ^ (64 - 1)) :=
      by
      omega
    cases p with
    | dev => exact .inl ⟨.overflow, if_neg hout⟩
    | release =>
      refine .inr ⟨(expiresAt + swr.toNat : Int).bmod (2 ^ 64), ?_, if_neg hout⟩
      rw [Int.bmod_def]
      split <;> omega
  · -- the window itself is negative
    rw [toInt_toInt64, if_neg hsmall]
    exact .inr ⟨_, by omega, signed_ok p (by omega)⟩

/-- **The stale window.** For an entry that was written with a window and neither overwritten nor
purged since, a read after it expired does what it should exactly if Redis still has the metadata,
and the end of the window is an `i64` or has passed. -/
theorem staleRead_iff (p : Profile) (sys : CacheSystem) (w : Write) (events : List CacheEvent)
    (path : Str) (hpath : w.path = .ok path) (hswr : 0 < w.staleWhileRevalidate)
    (hnot : NotOverwritten w events)
    (hkept : (run p events (sys.step p (.put w))).stores.objects.lookup path = some w.body)
    (hexp : w.metadata.expiresAt ≤ (run p events (sys.step p (.put w))).stores.clock.timestamp) :
    (StaleServed p (run p events (sys.step p (.put w))) w ↔
      ((run p events (sys.step p (.put w))).stores.metaOf (metaKey w.siteId w.cacheKey)).isSome ∧
        ((run p events (sys.step p (.put w))).stores.clock.timestamp
            < w.metadata.expiresAt + w.staleWhileRevalidate.toNat →
          w.metadata.expiresAt + w.staleWhileRevalidate.toNat < 2 ^ 63)) ∧
    (((run p events (sys.step p (.put w))).stores.metaOf (metaKey w.siteId w.cacheKey)).isSome →
      (run p events (sys.step p (.put w))).stores.clock.millis
        ≤ sys.stores.clock.millis + 1000 * w.redisTtl sys.stores.clock) := by
  obtain ⟨s', hrun, -, -, hentry, -⟩ := run_put p hpath sys.stores
  have hstores : (sys.step p (.put w)).stores = s' := congrArg Prod.snd hrun
  have hwritten := entry_of_run (p := p) (w.entry sys.stores.clock) events
    (sys.step p (.put w)) hnot
    (fun e he => by
      rw [hstores, hentry] at he
      exact (Option.some.inj he).symm)
  have hnow := timestamp_lt (run p events (sys.step p (.put w))).stores.clock
  generalize run p events (sys.step p (.put w)) = last at *
  cases hmeta : last.stores.metaOf (metaKey w.siteId w.cacheKey) with
  | none =>
    refine ⟨iff_of_false (fun h => ?_) (fun h => by cases h.1), fun h => by cases h⟩
    have hread := getWithStale_of_none (p := p) hpath hmeta
    rw [hkept] at hread
    by_cases hin : last.stores.clock.timestamp < w.metadata.expiresAt + w.staleWhileRevalidate.toNat
    · have hfresh := Option.some.inj (ok_unique hread (h.inside hin))
      cases congrArg Prod.snd hfresh
    · cases hread.symm.trans (h.behind (by omega))
  | some found =>
    obtain ⟨deadline, hlookup, hlive⟩ := lookup_of_metaOf hmeta
    obtain ⟨hvalue, rfl⟩ := RedisEntry.mk.inj (hwritten _ hlookup)
    cases hvalue
    refine ⟨?_, fun _ => of_decide_eq_true hlive⟩
    by_cases hend : w.metadata.expiresAt + w.staleWhileRevalidate.toNat < 2 ^ 63
    · exact iff_of_true (getWithStale_in_range hpath hmeta hkept hswr hexp hend)
        ⟨rfl, fun _ => hend⟩
    · refine iff_of_false (fun h => ?_) fun h => hend (h.2 (by omega))
      have hin := h.inside (by omega)
      rw [getWithStale_of_expired hpath hmeta hexp] at hin
      rcases deadline_of_overflow p w.expiresAt_nonneg w.expiresAt_lt (Int.not_lt.1 hend)
        with ⟨f, hfault⟩ | ⟨d, hle, hdeadline⟩
      · rw [run_readExpired_fault hfault] at hin
        cases hin
      · rw [run_readExpired hdeadline, if_neg fun hopen => absurd hopen.2 (by omega)] at hin
        cases hin

/-- The page with a window of a minute, written half a second after the full second. -/
def stalePage : Write :=
  { notFoundPage with builtAt := ⟨500, by decide⟩, staleWhileRevalidate := 60 }

/-- In the rest of the second in which it expires, the metadata is still there. -/
theorem staleRead_iff_same_second : stalePage.path = .ok notFoundPath ∧
      (run .release [.advance ⟨10200, by decide⟩]
          ((empty ⟨500, by decide⟩).step .release (.put stalePage))).stores.objects.lookup
            notFoundPath
        = some stalePage.body ∧
      stalePage.metadata.expiresAt ≤ (run .release [.advance ⟨10200, by decide⟩]
        ((empty ⟨500, by decide⟩).step .release (.put stalePage))).stores.clock.timestamp ∧
      StaleServed .release (run .release [.advance ⟨10200, by decide⟩]
        ((empty ⟨500, by decide⟩).step .release (.put stalePage))) stalePage := by
  refine ⟨by decide, by decide +kernel, by decide +kernel, ?_⟩
  apply (staleRead_iff .release (empty ⟨500, by decide⟩) stalePage
    [.advance ⟨10200, by decide⟩] notFoundPath
    (by decide) (by decide) (fun _ h => by cases mem_singleton.1 h) (by decide +kernel)
      (by decide +kernel)).1.2
  exact ⟨by decide +kernel, fun _ => by decide +kernel⟩

/-- A second later it is not: in its window of a minute the page is served as a fresh 200. -/
theorem staleRead_second_later_fails :
    stalePage.metadata.expiresAt = 10 ∧ stalePage.metadata.staleWhileRevalidate = 60 ∧
      (run .release [.advance ⟨11000, by decide⟩]
        ((empty ⟨500, by decide⟩).step .release (.put stalePage))).stores.clock.timestamp = 11 ∧
      ((CacheStorage.full.getWithStale .release stalePage.siteId stalePage.cacheKey).run
        Stores.serve
          (run .release [.advance ⟨11000, by decide⟩]
            ((empty ⟨500, by decide⟩).step .release (.put stalePage))).stores).1
        = .ok (some (⟨CacheStorage.fallbackMeta 11 stalePage.body, stalePage.body⟩, false)) := by
  refine ⟨?_, ?_, ?_, ?_⟩ <;> decide +kernel

end CacheSystem

end Nozdormu.Cache
