import Nozdormu.Cache.Freshness
import Nozdormu.Data.Separator

/-!
# The index of tags over whole runs
-/

namespace Nozdormu.Cache

open Rust Bmff Data CacheStorage Stores List

variable {s : Stores} {key : Str} {keys : List Str}

namespace Stores

/-- The members of a set that has not run out of time. -/
def membersOf (s : Stores) (key : Str) : List Str := (membersAnswer (s.live key)).toOption.getD []

theorem live_of_lookup {e : RedisEntry} (h : s.redis.lookup key = some e)
    (hlive : e.deadline.all (s.clock.millis ≤ ·) = true) : s.live key = some e := by
  unfold live
  rw [h, Option.filter_some, if_pos hlive]

theorem lookup_of_live {e : RedisEntry} (h : s.live key = some e) :
    s.redis.lookup key = some e := (Option.filter_eq_some_iff.1 h).1

theorem membersOf_of_lookup {deadline : Option Nat}
    (h : s.redis.lookup key = some ⟨.members keys, deadline⟩)
    (hlive : deadline.all (s.clock.millis ≤ ·) = true) : s.membersOf key = keys := by
  unfold membersOf
  rw [live_of_lookup h hlive]
  rfl

theorem mem_membersOf_iff {m : Str} :
    m ∈ s.membersOf key ↔ ∃ keys deadline, s.redis.lookup key = some ⟨.members keys, deadline⟩ ∧
      deadline.all (s.clock.millis ≤ ·) = true ∧ m ∈ keys := by
  constructor
  · intro h
    unfold membersOf at h
    cases hlive : s.live key with
    | none => rw [hlive] at h; cases h
    | some e =>
      rw [hlive] at h
      obtain ⟨hlookup, hdeadline⟩ := Option.filter_eq_some_iff.1 hlive
      obtain ⟨value, deadline⟩ := e
      cases value with
      | record found => cases h
      | members keys => exact ⟨keys, deadline, hlookup, hdeadline, h⟩
  · rintro ⟨keys, deadline, hlookup, hdeadline, hmem⟩
    rwa [membersOf_of_lookup hlookup hdeadline]

theorem membersOf_congr {s' : Stores} (hclock : s'.clock = s.clock)
    (hredis : s'.redis.lookup key = s.redis.lookup key) : s'.membersOf key = s.membersOf key := by
  unfold membersOf live
  rw [hclock, hredis]

/-- No key of a tag holds metadata. -/
def SetsOnly (s : Stores) : Prop :=
  ∀ key found deadline, IsTagKey key → s.redis.lookup key ≠ some ⟨.record found, deadline⟩

theorem SetsOnly.of_onlyEntry {s' : Stores} (h : s.SetsOnly) (honly : OnlyEntry key s s')
    (hself : ∀ found deadline, s'.redis.lookup key ≠ some ⟨.record found, deadline⟩) :
      s'.SetsOnly := by
  intro key' found deadline hkey'
  by_cases heq : key' = key
  · rw [heq]
    exact hself found deadline
  · rw [honly.redis key' heq]
    exact h key' found deadline hkey'

/-- One tag of a write. -/
def enter (s : Stores) (key member : Str) (seconds : Nat) : Stores :=
  (s.sadd key member).2.expire key seconds

theorem onlyEntry_enter (s : Stores) (key member : Str) (seconds : Nat) :
    OnlyEntry key s (s.enter key member seconds) := by
  have hadd := s.onlyEntry_sadd key member
  have hexpire := (s.sadd key member).2.onlyEntry_expire key seconds
  exact ⟨hexpire.clock.trans hadd.clock, hexpire.objects.trans hadd.objects,
    hexpire.spawned.trans hadd.spawned, fun key' hne =>
      (hexpire.redis key' hne).trans (hadd.redis key' hne)⟩

theorem lookup_expire_setEntry {deadline : Option Nat}
    (seconds : Nat) (hlive : deadline.all (s.clock.millis ≤ ·) = true) :
    ((s.setEntry key ⟨.members keys, deadline⟩).expire key seconds).redis.lookup key
      = some ⟨.members keys, some (s.clock.millis + 1000 * seconds)⟩ := by
  have hset : (s.setEntry key ⟨.members keys, deadline⟩).live key =
      some ⟨.members keys, deadline⟩ :=
    live_of_lookup (AList.lookup_insert _) hlive
  unfold expire
  rw [hset]
  exact AList.lookup_insert _

section

variable (h : s.SetsOnly) (hkey : IsTagKey key)
include h hkey

theorem lookup_enter (member : Str) (seconds : Nat) : (s.enter key member seconds).redis.lookup key
      = some ⟨.members ((s.membersOf key).insert member), some (s.clock.millis + 1000 * seconds)⟩ :=
        by
  unfold enter sadd membersOf
  cases hlive : s.live key with
  | none => exact lookup_expire_setEntry seconds rfl
  | some e =>
    obtain ⟨value, deadline⟩ := e
    cases value with
    | record found => exact absurd (lookup_of_live hlive) (h key found deadline hkey)
    | members keys => exact lookup_expire_setEntry seconds (Option.filter_eq_some_iff.1 hlive).2

theorem SetsOnly.enter (member : Str) (seconds : Nat) : (s.enter key member seconds).SetsOnly := by
  refine h.of_onlyEntry (s.onlyEntry_enter key member seconds) fun found deadline => ?_
  rw [lookup_enter h hkey]
  nofun

theorem membersOf_enter (member : Str)
    (seconds : Nat) : (s.enter key member seconds).membersOf key =
    (s.membersOf key).insert member := by
  refine membersOf_of_lookup (lookup_enter h hkey member seconds) ?_
  rw [(s.onlyEntry_enter key member seconds).clock]
  exact decide_eq_true (Nat.le_add_right _ _)

end

end Stores

theorem lookup_putTags (siteId cacheKey : Str) (ttl : Nat) :
    ∀ (tags : List Str) {s : Stores}, s.SetsOnly →
    ∀ key, IsTagKey key →
      ((putTags siteId cacheKey ttl tags).run serve s).2.redis.lookup key
        = if ∃ tag ∈ tags, key = tagKey siteId tag then
            some ⟨.members ((s.membersOf key).insert cacheKey),
              some (s.clock.millis + 1000 * (ttl + 3600))⟩
          else s.redis.lookup key := by
  intro tags
  induction tags with
  | nil =>
    intro s _ key _
    exact (if_neg (by simp)).symm
  | cons tag tags ih =>
    intro s hs key hkey
    have hfirst : IsTagKey (tagKey siteId tag) := ⟨siteId, tag, rfl⟩
    have honly := s.onlyEntry_enter (tagKey siteId tag) cacheKey (ttl + 3600)
    show ((putTags siteId cacheKey ttl tags).run serve
      (s.enter (tagKey siteId tag) cacheKey (ttl + 3600))).2.redis.lookup key = _
    rw [ih (hs.enter hfirst cacheKey (ttl + 3600)) key hkey, honly.clock]
    by_cases hkeyTag : key = tagKey siteId tag
    · -- entering the key a second time changes nothing
      subst hkeyTag
      rw [membersOf_enter hs hfirst, insert_of_mem (mem_insert_self ..),
        lookup_enter hs hfirst, ite_self, if_pos ⟨tag, mem_cons_self, rfl⟩]
    · rw [honly.redis key hkeyTag, membersOf_congr honly.clock (honly.redis key hkeyTag)]
      have hrest : (∃ t ∈ tag :: tags, key = tagKey siteId t) ↔ ∃ t ∈ tags,
          key = tagKey siteId t := by
        simp [hkeyTag]
      rw [if_congr hrest rfl rfl]

/-! ## The members of the sets -/

variable {Q' : Str → Str → Prop}

namespace Stores

/-- The keys of tags hold sets, no background `DEL` is after one of them, and each member has what
`Q` says of it and its set. -/
structure Members (Q : Str → Str → Prop) (s : Stores) : Prop where
  sets : s.SetsOnly
  spawned : ∀ key ∈ s.spawned, ¬ IsTagKey key
  member : ∀ key, IsTagKey key → ∀ m ∈ s.membersOf key, Q key m

theorem membersOf_dropEntry (s : Stores) (key key' : Str) :
    (s.dropEntry key).membersOf key' ⊆ s.membersOf key' := by
  by_cases heq : key' = key
  · have hnone : (s.dropEntry key).redis.lookup key' = none := by
      rw [heq]; exact AList.lookup_erase _ _
    unfold membersOf live
    rw [hnone]
    exact nil_subset _
  · have honly := onlyEntry_dropEntry key s
    rw [membersOf_congr honly.clock (honly.redis key' heq)]
    exact List.Subset.refl _

theorem SetsOnly.dropEntry (h : s.SetsOnly) (key : Str) : (s.dropEntry key).SetsOnly :=
  fun key' found deadline hkey' hrecord => h key' found deadline hkey' (lookup_dropEntry hrecord)

theorem srem_cases (s : Stores) (key member : Str) : (s.srem key member).2 = s ∨
      (∃ keys deadline, s.live key = some ⟨.members keys, deadline⟩ ∧ keys.erase member = [] ∧
        (s.srem key member).2 = s.dropEntry key) ∨
      ∃ keys deadline, s.live key = some ⟨.members keys, deadline⟩ ∧
        (s.srem key member).2 = s.setEntry key ⟨.members (keys.erase member), deadline⟩ := by
  unfold srem
  split
  next keys deadline hlive =>
    split
    next hempty => exact .inr (.inl ⟨keys, deadline, hlive, isEmpty_iff.1 hempty, rfl⟩)
    next => exact .inr (.inr ⟨keys, deadline, hlive, rfl⟩)
  next => exact .inl rfl
  next => exact .inl rfl

theorem membersOf_srem (s : Stores) (key member key' : Str) :
    (s.srem key member).2.membersOf key' ⊆ s.membersOf key' := by
  rcases s.srem_cases key member with hsame | ⟨-, -, -, -, hdrop⟩ | ⟨keys, deadline, hlive, hset⟩
  · rw [hsame]
    exact List.Subset.refl _
  · rw [hdrop]
    exact membersOf_dropEntry s key key'
  by_cases heq : key' = key
  · subst heq
    obtain ⟨hlookup, hdeadline⟩ := Option.filter_eq_some_iff.1 hlive
    have hafter : (s.setEntry key' ⟨.members (keys.erase member), deadline⟩).membersOf key'
        = keys.erase member := membersOf_of_lookup (AList.lookup_insert _) hdeadline
    rw [hset, hafter, membersOf_of_lookup hlookup hdeadline]
    exact erase_subset
  · have honly := s.onlyEntry_srem key member
    rw [membersOf_congr honly.clock (honly.redis key' heq)]
    exact List.Subset.refl _

theorem SetsOnly.srem (h : s.SetsOnly) (key member : Str) : (s.srem key member).2.SetsOnly := by
  rcases s.srem_cases key member with hsame | ⟨-, -, -, -, hdrop⟩ | ⟨keys, deadline, -, hset⟩
  · rwa [hsame]
  · rw [hdrop]
    exact h.dropEntry key
  refine h.of_onlyEntry (s.onlyEntry_srem key member) fun found deadline => ?_
  rw [hset, setEntry, AList.lookup_insert]
  nofun

variable {Q : Str → Str → Prop}

theorem Members.mono (h : s.Members Q)
    (hQ : ∀ key, ∀ m ∈ s.membersOf key, Q key m → Q' key m) : s.Members Q' :=
  ⟨h.sets, h.spawned, fun key hkey m hm => hQ key m hm (h.member key hkey m hm)⟩

theorem Members.dropEntry (h : s.Members Q) (key : Str) : (s.dropEntry key).Members Q :=
  ⟨h.sets.dropEntry key, h.spawned, fun key' hkey' m hm =>
    h.member key' hkey' m (membersOf_dropEntry s key key' hm)⟩

theorem Members.serve {c : StoreCall} (hc : Fading c) (h : s.Members Q) :
    (serve c s).2.Members Q := by
  cases c with
  | redisDel key => exact h.dropEntry key
  | redisSrem key member =>
    have hspawned : (Stores.serve (.redisSrem key member) s).2.spawned = s.spawned :=
      (s.onlyEntry_srem key member).spawned
    exact ⟨h.sets.srem key member, hspawned ▸ h.spawned,
      fun key' hkey' m hm => h.member key' hkey' m (s.membersOf_srem key member key' hm)⟩
  | spawnDel key =>
    refine ⟨h.sets, fun key' hkey' => ?_, h.member⟩
    rcases mem_append.1 hkey' with hold | hnew
    · exact h.spawned key' hold
    · rw [mem_singleton.1 hnew]
      exact hc
  | redisSetex | redisSadd | redisExpire | putObject => exact absurd hc id
  | _ => exact ⟨h.sets, h.spawned, h.member⟩

theorem Members.run {α : Type} {t : StoreTask α} (ht : t.Only Fading) (h : s.Members Q) :
    (t.run Stores.serve s).2.Members Q :=
  Task.run_keeps (fun _ _ hc hs => hs.serve hc) ht h

theorem Members.advance (h : s.Members Q) {later : Clock}
    (hlater : s.clock.millis ≤ later.millis) : Members Q { s with clock := later } := by
  refine ⟨h.sets, h.spawned, fun key hkey m hm => h.member key hkey m ?_⟩
  obtain ⟨keys, deadline, hlookup, hdeadline, hmem⟩ := mem_membersOf_iff.1 hm
  refine mem_membersOf_iff.2 ⟨keys, deadline, hlookup, ?_, hmem⟩
  cases deadline with
  | none => rfl
  | some d => exact decide_eq_true (hlater.trans (of_decide_eq_true hdeadline))

end Stores

/-! ## The sets after a write -/

/-- The last millisecond of the sets that a write enters its key into. -/
def Write.setDeadline (w : Write) (now : Clock) : Nat := now.millis + 1000 * (w.redisTtl now + 3600)

theorem Stores.SetsOnly.stored (h : s.SetsOnly) (w : Write) (path : Str) :
    (s.stored w path).SetsOnly := by
  intro key found deadline hkey hrecord
  have hne : key ≠ metaKey w.siteId w.cacheKey := fun heq => not_isTagKey_metaKey _ _ (heq ▸ hkey)
  exact h key found deadline hkey ((AList.lookup_insert_ne hne).symm.trans hrecord)

variable (p : Profile) {w : Write} {path : Str}

theorem lookup_put (hpath : w.path = .ok path) (hs : s.SetsOnly) (key : Str) (hkey : IsTagKey key) :
    ((full.put p w.siteId w.cacheKey w.metadata w.body).run serve s).2.redis.lookup key
      = if ∃ tag ∈ w.tags, key = tagKey w.siteId tag then
          some ⟨.members ((s.membersOf key).insert w.cacheKey), some (w.setDeadline s.clock)⟩
        else s.redis.lookup key := by
  have hne : key ≠ metaKey w.siteId w.cacheKey := fun heq => not_isTagKey_metaKey _ _ (heq ▸ hkey)
  have hstored : (s.stored w path).redis.lookup key = s.redis.lookup key :=
    AList.lookup_insert_ne hne
  have hclock : (s.stored w path).clock = s.clock := rfl
  rw [run_put_eq p hpath, lookup_putTags _ _ _ _ (hs.stored w path) key hkey, hstored,
    membersOf_congr hclock hstored]
  rfl

variable {Q : Str → Str → Prop}

theorem Stores.Members.put (h : s.Members Q) (p : Profile)
    (hpath : w.path = .ok path) (hold : ∀ key, ∀ m ∈ s.membersOf key, Q key m → Q' key m)
    (hnew : ∀ tag ∈ w.tags, Q' (tagKey w.siteId tag) w.cacheKey) :
    ((full.put p w.siteId w.cacheKey w.metadata w.body).run Stores.serve s).2.Members Q' := by
  have hlookup := lookup_put p hpath h.sets
  obtain ⟨s', hrun, honly⟩ := run_putTags w.siteId w.cacheKey (w.redisTtl s.clock) w.tags
    (s.stored w path)
  rw [run_put_eq p hpath, hrun] at hlookup ⊢
  dsimp only at hlookup ⊢
  have hclock : s'.clock = s.clock := honly.clock
  refine ⟨?_, honly.spawned ▸ h.spawned, ?_⟩
  · intro key found deadline hkey hrecord
    rw [hlookup key hkey] at hrecord
    split at hrecord
    · cases hrecord
    · exact h.sets key found deadline hkey hrecord
  · intro key hkey m hm
    by_cases htag : ∃ tag ∈ w.tags, key = tagKey w.siteId tag
    · have hset := hlookup key hkey
      rw [if_pos htag] at hset
      have hlive : (some (w.setDeadline s.clock)).all (s'.clock.millis ≤ ·) = true := by
        rw [hclock]
        exact decide_eq_true (Nat.le_add_right _ _)
      rw [membersOf_of_lookup hset hlive, mem_insert_iff] at hm
      rcases hm with rfl | hm
      · obtain ⟨tag, htag, rfl⟩ := htag
        exact hnew tag htag
      · exact hold key m hm (h.member key hkey m hm)
    · have hsame := hlookup key hkey
      rw [if_neg htag] at hsame
      rw [membersOf_congr hclock hsame] at hm
      exact hold key m hm (h.member key hkey m hm)

variable {e : CacheEvent}

namespace CacheSystem

/-! ## Members over runs -/

theorem members_empty (Q : Str → Str → Prop) (clock : Clock) : (empty clock).stores.Members Q :=
  ⟨fun _ _ _ _ => nofun, fun _ => nofun, fun _ _ _ => nofun⟩

variable {sys : CacheSystem}

theorem members_step (he : ∀ w, e ≠ .put w) (h : sys.stores.Members Q) :
    (sys.step p e).stores.Members Q ∧ (sys.step p e).writes = sys.writes := by
  rcases step_cases p he sys with ⟨α, t, ht, hstep⟩ | ⟨key, -, hstep⟩ | ⟨later, hlater, hstep⟩
  · rw [hstep]
    exact ⟨h.run ht, rfl⟩
  · rw [hstep]
    have hdrop := h.dropEntry key
    exact ⟨⟨hdrop.sets, fun key' hkey' => h.spawned key' (mem_of_mem_erase hkey'), hdrop.member⟩,
      rfl⟩
  · rw [hstep]
    exact ⟨h.advance hlater, rfl⟩

theorem members_put (w : Write)
    (h : sys.stores.Members Q) (hold : ∀ key, ∀ m ∈ sys.stores.membersOf key, Q key m → Q' key m)
    (hnew : ∀ path, w.path = .ok path → ∀ tag ∈ w.tags, Q' (tagKey w.siteId tag) w.cacheKey) :
    (sys.step p (.put w)).stores.Members Q' := by
  cases hpath : w.path with
  | error stop =>
    have hsame : (sys.step p (.put w)).stores = sys.stores := run_put_fault p hpath sys.stores
    rw [hsame]
    exact h.mono hold
  | ok path => exact h.put p hpath hold (hnew path hpath)

theorem mem_writes_run (events : List CacheEvent) (h : w ∈ (run p events sys).writes) :
    w ∈ sys.writes ∨ (w.siteId, w.cacheKey) ∈ writtenNames events := by
  refine run_keeps
    (P := fun sys' => ∀ w ∈ sys'.writes, w ∈ sys.writes ∨
      (w.siteId, w.cacheKey) ∈ writtenNames events)
    (fun sys' w' hw' hkept w hw => ?_) (fun _ _ _ h => h) events sys
    (fun _ => mem_writtenNames) (fun _ => .inl) w h
  rcases mem_cons.1 hw with rfl | hw
  · exact .inr hw'
  · exact hkept w hw

/-- The key was written with a tag of the set. -/
def WrittenInto (writes : List Write) (key m : Str) : Prop :=
  ∃ w ∈ writes, w.cacheKey = m ∧ ∃ tag ∈ w.tags, key = tagKey w.siteId tag

/-- **Members were written.** In every state that a run reaches, the members of a set are keys that
were written with a tag of that set. -/
theorem writtenInto_run : ∀ (events : List CacheEvent) {sys : CacheSystem},
    sys.stores.Members (WrittenInto sys.writes) →
      (run p events sys).stores.Members (WrittenInto (run p events sys).writes) := by
  intro events sys h
  refine List.foldlRecOn (motive := fun sys : CacheSystem =>
    sys.stores.Members (WrittenInto sys.writes)) events _ h ?_
  intro sys h e _
  by_cases hput : ∃ w, e = .put w
  · obtain ⟨w, rfl⟩ := hput
    have hold : ∀ key, ∀ m ∈ sys.stores.membersOf key, WrittenInto sys.writes key m →
        WrittenInto (w :: sys.writes) key m := by
      rintro key m - ⟨w', hw', hinto⟩
      exact ⟨w', mem_cons_of_mem _ hw', hinto⟩
    exact members_put p w h hold fun _ _ tag htag => ⟨w, mem_cons_self, rfl, tag, htag, rfl⟩
  · obtain ⟨hmembers, hwrites⟩ := members_step p (fun w hw => hput ⟨w, hw⟩) h
    rw [hwrites]
    exact hmembers

end CacheSystem

/-! ## A purge by tag -/

theorem Stores.SetsOnly.smembers (h : s.SetsOnly) (key : Str) (hkey : IsTagKey key) :
    membersAnswer (s.live key) = .ok (s.membersOf key) := by
  unfold membersOf
  cases hlive : s.live key with
  | none => rfl
  | some e =>
    obtain ⟨value, deadline⟩ := e
    cases value with
    | members keys => rfl
    | record found => exact absurd (lookup_of_live hlive) (h key found deadline hkey)

/-- A purge by tag stops before it has done anything, since there is a member whose path cannot be
computed, or it takes away the bodies of all members. -/
theorem run_deleteByTag (siteId tag : Str) (hs : s.SetsOnly) :
    (∃ f, (full.deleteByTag p siteId tag).run serve s = (.error f, s)) ∨
      ∃ paths s', ((s.membersOf (tagKey siteId tag)).mapM
          fun key => (cacheObjectPath siteId key : Exec Empty Str)) = .ok paths ∧
        (full.deleteByTag p siteId tag).run serve s = (.ok (.ok 0), s') ∧
        s'.clock = s.clock ∧ s'.objects = paths.foldl (fun o path => o.erase path) s.objects := by
  have hanswer := hs.smembers (tagKey siteId tag) ⟨siteId, tag, rfl⟩
  have hredis : full.redis = true := rfl
  simp only [deleteByTag, if_pos hredis, Task.perform_bind, Task.run_call, serve, hanswer]
  generalize s.membersOf (tagKey siteId tag) = keys
  cases keys with
  | nil => exact .inr ⟨[], s, rfl, rfl, rfl, rfl⟩
  | cons key keys =>
    rw [isEmpty_cons, if_neg Bool.false_ne_true]
    cases hpaths : (key :: keys).mapM fun key => cacheObjectPath siteId key with
    | ok paths =>
      obtain ⟨s', hrun, hclock, hobjects, -⟩ := run_deleteMany p hpaths s
      refine .inr ⟨paths, s'.dropEntry (tagKey siteId tag), rfl, ?_, hclock, hobjects⟩
      rw [Task.run_bind_of_ok hrun]
      rfl
    | error stop =>
      cases stop with
      | err e => cases e
      | fault f =>
        refine .inl ⟨f, ?_⟩
        unfold deleteMany deleteBodies
        rw [if_pos full_oss, hpaths]
        rfl

/-! ## Tidy runs -/

def Write.Tagged (site tag : Str) (w : Write) : Prop := w.siteId = site ∧ tag ∈ w.tags

instance (site tag : Str) (w : Write) : Decidable (w.Tagged site tag) :=
  inferInstanceAs (Decidable (w.siteId = site ∧ tag ∈ w.tags))

/-- Site ids and tags are joined by a colon: of these tags of the other site, none has the key of
this one. -/
def Apart (site tag other : Str) (tags : List Str) : Prop :=
  other ≠ site → ∀ tag' ∈ tags, tagKey other tag' ≠ tagKey site tag

instance (site tag other : Str) (tags : List Str) : Decidable (Apart site tag other tags) :=
  inferInstanceAs (Decidable (_ → _))

/-- The set lists the key, at least until the second before `expiresAt` is over. -/
def Stores.Lists (s : Stores) (key m : Str) (expiresAt : Int) : Prop :=
  ∃ keys deadline, s.redis.lookup key = some ⟨.members keys, some deadline⟩ ∧ m ∈ keys ∧
    1000 * expiresAt ≤ deadline + 1

namespace Stores

variable {s s' : Stores} {key m : Str} {expiresAt : Int}

section

variable (h : s.Lists key m expiresAt)
include h

theorem Lists.congr (hlookup : s'.redis.lookup key = s.redis.lookup key) :
    s'.Lists key m expiresAt := by
  unfold Lists
  rw [hlookup]
  exact h

theorem Lists.mem_membersOf (hlive : s.clock.timestamp < expiresAt) : m ∈ s.membersOf key := by
  obtain ⟨keys, deadline, hlookup, hmem, hlong⟩ := h
  refine mem_membersOf_iff.2 ⟨keys, some deadline, hlookup, decide_eq_true ?_, hmem⟩
  unfold Clock.timestamp at hlive
  omega

theorem Lists.srem {member : Str} (hne : m ≠ member) (key' : Str) :
    (s.srem key' member).2.Lists key m expiresAt := by
  by_cases hkey : key = key'
  · subst hkey
    obtain ⟨keys, deadline, hlookup, hmem, hlong⟩ := h
    have hkept : m ∈ keys.erase member := (mem_erase_of_ne hne).2 hmem
    have hkeys : ∀ {keys' deadline'}, s.live key = some ⟨.members keys', deadline'⟩ →
        keys' = keys ∧ deadline' = some deadline := by
      intro keys' deadline' hlive
      obtain ⟨hvalue, hdeadline⟩ :=
        RedisEntry.mk.inj (Option.mem_unique (lookup_of_live hlive) hlookup)
      exact ⟨RedisValue.members.inj hvalue, hdeadline⟩
    rcases s.srem_cases key member with hsame | ⟨keys', deadline', hlive, hempty, -⟩ |
      ⟨keys', deadline', hlive, hset⟩
    · rw [hsame]
      exact ⟨keys, deadline, hlookup, hmem, hlong⟩
    · obtain ⟨rfl, -⟩ := hkeys hlive
      rw [hempty] at hkept
      cases hkept
    · obtain ⟨rfl, rfl⟩ := hkeys hlive
      rw [hset]
      exact ⟨_, deadline, AList.lookup_insert _, hkept, hlong⟩
  · exact h.congr ((s.onlyEntry_srem key' member).redis key hkey)

theorem Lists.deleting (hkey : IsTagKey key) {siteId : Str}
    {c : StoreCall} (hc : Deleting siteId keys c) (hm : m ∉ keys) :
    (serve c s).2.Lists key m expiresAt := by
  cases c with
  | redisSrem key' member => exact h.srem (fun heq => hm (heq ▸ hc.2)) key'
  | redisDel key' =>
    obtain ⟨k, -, rfl⟩ := hc
    have hne : metaKey siteId k ≠ key := fun heq => not_isTagKey_metaKey siteId k (heq ▸ hkey)
    exact h.congr (redis_serve (c := .redisDel _) hne s)
  | redisSetex | redisSadd | redisExpire => exact absurd hc id
  | _ => exact h.congr rfl

end

end Stores

/-- A delete leaves the sets alone of which the entry has no stored tag. -/
theorem lookup_delete {siteId m : Str} (s : Stores) (hkey : IsTagKey key)
    (hother : ∀ tag ∈ storedTags s siteId m, tagKey siteId tag ≠ key) :
    ((full.delete siteId m).run serve s).2.redis.lookup key = s.redis.lookup key := by
  cases hpath : cacheObjectPath siteId m with
  | ok path =>
    obtain ⟨s', hrun, -, -, -, hredis⟩ := run_delete hpath s
    rw [hrun]
    exact hredis key hother fun heq => not_isTagKey_metaKey siteId m (heq ▸ hkey)
  | error stop =>
    cases stop with
    | err e => cases e
    | fault f =>
      unfold delete
      rw [if_pos full_oss, hpath]
      rfl

namespace CacheSystem

/-- The last write of a body that is there, as long as it has not expired. -/
structure Current (sys : CacheSystem) (path : Str) (w : Write) : Prop where
  last : sys.lastWrite path = some w
  body : (sys.stores.objects.lookup path).isSome
  unexpired : sys.stores.clock.timestamp < w.metadata.expiresAt

/-- What an event has to keep to. -/
def Tidy (site tag : Str) (sys : CacheSystem) : CacheEvent → Prop
  | .put w =>
    Apart site tag w.siteId w.tags ∧
    (w.Tagged site tag → 1000 * w.metadata.expiresAt ≤ w.setDeadline sys.stores.clock + 1 ∧
      ∀ path w', sys.Current path w' → w'.Tagged site tag → w.path ≠ .ok path →
        1000 * w'.metadata.expiresAt ≤ w.setDeadline sys.stores.clock + 1) ∧
    (¬ w.Tagged site tag → ∀ m ∈ sys.stores.membersOf (tagKey site tag),
      cacheObjectPath site m ≠ w.path)
  | .delete siteId key => Apart site tag siteId (storedTags sys.stores siteId key)
  | .deleteByTag siteId tag' => Apart site tag siteId [tag']
  | _ => True

def TidyRun (p : Profile) (site tag : Str) : List CacheEvent → CacheSystem → Prop
  | [], _ => True
  | e :: events, sys => Tidy site tag sys e ∧ TidyRun p site tag events (sys.step p e)

def LastTagged (site tag : Str) (sys : CacheSystem) (key m : Str) : Prop :=
  key = tagKey site tag → ∃ path w, (cacheObjectPath site m : Exec Empty Str) = .ok path ∧
    sys.lastWrite path = some w ∧ w.Tagged site tag

/-- The set of a tag lists exactly the entries with the tag. -/
structure Indexed (site tag : Str) (sys : CacheSystem) : Prop where
  complete : ∀ {path w}, sys.Current path w → w.Tagged site tag →
    sys.stores.Lists (tagKey site tag) w.cacheKey w.metadata.expiresAt
  sound : sys.stores.Members (LastTagged site tag sys)

variable {site tag : Str} {sys : CacheSystem}

theorem lists_step (he : ∀ w, e ≠ .put w) (htidy : Tidy site tag sys e)
    (hsets : sys.stores.Members Q) {m : Str} {expiresAt : Int}
    (hpath : (cacheObjectPath site m : Exec Empty Str) = .ok path)
    (hlive : sys.stores.clock.timestamp < expiresAt)
    (h : sys.stores.Lists (tagKey site tag) m expiresAt)
    (hbody : ((sys.step p e).stores.objects.lookup path).isSome) :
    (sys.step p e).stores.Lists (tagKey site tag) m expiresAt := by
  have hkey : IsTagKey (tagKey site tag) := ⟨site, tag, rfl⟩
  cases e with
  | put w => exact absurd rfl (he w)
  | get siteId key =>
    exact h.congr (redis_run ((only_get siteId key).mono fun _ hc => hc.sparesEntry _) _)
  | getWithStale siteId key =>
    exact h.congr (redis_run ((only_getWithStale siteId key p).mono fun _ hc => hc.sparesEntry _) _)
  | getRange siteId key start stop =>
    exact h.congr (redis_run ((only_getRange siteId key start stop).mono fun _ hc =>
      hc.sparesEntry _) _)
  | delete siteId key =>
    by_cases hsite : siteId = site
    · subst hsite
      by_cases hm : m = key
      · -- the entry itself is deleted
        subst hm
        obtain ⟨s', hrun, -, hobjects, -, -⟩ := run_delete hpath sys.stores
        have hstores : (sys.step p (.delete siteId m)).stores = s' := congrArg Prod.snd hrun
        rw [hstores, hobjects, AList.lookup_erase] at hbody
        cases hbody
      · have hkeeps : ∀ c s, Deleting siteId [key] c → s.Lists (tagKey siteId tag) m expiresAt →
            (serve c s).2.Lists (tagKey siteId tag) m expiresAt :=
          fun c s hc hs => hs.deleting hkey hc (by simpa using hm)
        exact Task.run_keeps hkeeps (only_delete siteId key) h
    · exact h.congr (lookup_delete sys.stores hkey (htidy hsite))
  | deleteMany siteId keys =>
    exact h.congr (redis_run ((only_deleteMany p siteId keys).mono fun _ hc => hc.2 _ hkey) _)
  | deleteByTag siteId tag' =>
    by_cases heq : tagKey site tag = tagKey siteId tag'
    · obtain rfl : siteId = site := not_not.1 fun hne =>
        htidy hne tag' (mem_singleton_self tag') heq.symm
      rcases run_deleteByTag p siteId tag' hsets.sets with ⟨f, hrun⟩ |
        ⟨paths, s', hpaths, hrun, -, hobjects⟩
      · have hstores : (sys.step p (.deleteByTag siteId tag')).stores = sys.stores :=
          congrArg Prod.snd hrun
        rwa [hstores]
      -- all members lose their bodies, and this is one of them
      have hstores : (sys.step p (.deleteByTag siteId tag')).stores = s' := congrArg Prod.snd hrun
      have hmem : m ∈ sys.stores.membersOf (tagKey siteId tag') := heq ▸ h.mem_membersOf hlive
      have hmem' := (mem_iff_of_mapM hpaths).2 ⟨m, hmem, hpath⟩
      rw [hstores, hobjects, lookup_foldl_erase, if_pos hmem'] at hbody
      cases hbody
    · refine h.congr (redis_run ((only_deleteByTag p siteId tag').mono fun c hc => ?_) _)
      exact hc.2 _ hkey heq
  | background key =>
    dsimp only [step]
    split
    next hspawned =>
      have hne : tagKey site tag ≠ key := fun heq => hsets.spawned key hspawned (heq ▸ hkey)
      exact h.congr (AList.lookup_erase_ne hne)
    next => exact h
  | advance later =>
    dsimp only [step]
    split
    · exact h.congr rfl
    · exact h

theorem clock_step (he : ∀ w, e ≠ .put w) (sys : CacheSystem) :
    sys.stores.clock.millis ≤ (sys.step p e).stores.clock.millis := by
  rcases step_cases p he sys with ⟨α, t, -, hstep⟩ | ⟨key, -, hstep⟩ | ⟨later, hlater, hstep⟩
  · rw [hstep, after, clock_run]
  · rw [hstep]
    exact Nat.le_refl _
  · rw [hstep]
    exact hlater

theorem path_of_lastWrite (h : sys.lastWrite path = some w) : w.path = .ok path := by
  simpa using List.find?_some h

theorem Current.cacheObjectPath (h : sys.Current path w) (htagged : w.Tagged site tag) :
    (cacheObjectPath site w.cacheKey : Exec Empty Str) = .ok path :=
  htagged.1 ▸ path_of_lastWrite h.last

theorem Indexed.step (h : Indexed site tag sys) (p : Profile) (he : ∀ w, e ≠ .put w)
    (htidy : Tidy site tag sys e) : Indexed site tag (sys.step p e) := by
  obtain ⟨s, hstep, hfades⟩ := fades_step he sys
  have hlast : ∀ path, (sys.step p e).lastWrite path = sys.lastWrite path := fun path =>
    by rw [hstep]; rfl
  constructor
  · intro path w hcur htagged
    have hbefore : sys.Current path w := by
      refine ⟨(hlast path).symm.trans hcur.last, ?_, ?_⟩
      · obtain ⟨body, hbody⟩ := Option.isSome_iff_exists.1 hcur.body
        rw [hstep] at hbody
        exact Option.isSome_iff_exists.2 ⟨body, hfades.objects hbody⟩
      · have hclock := clock_step p he sys
        have hunexpired := hcur.unexpired
        unfold Clock.timestamp at hunexpired ⊢
        omega
    exact lists_step p he htidy h.sound (hbefore.cacheObjectPath htagged) hbefore.unexpired
      (h.complete hbefore htagged) hcur.body
  · refine (members_step p he h.sound).1.mono fun key m _ hmember hkey => ?_
    obtain ⟨path, w, hpath, hw, htagged⟩ := hmember hkey
    exact ⟨path, w, hpath, (hlast path).trans hw, htagged⟩

theorem tagged_iff_of_apart (h : Apart site tag w.siteId w.tags) :
    (∃ tag' ∈ w.tags, tagKey site tag = tagKey w.siteId tag') ↔ w.Tagged site tag := by
  constructor
  · rintro ⟨tag', htag', heq⟩
    have hsite : w.siteId = site := not_not.1 fun hne => h hne tag' htag' heq.symm
    rw [hsite] at heq
    obtain rfl : tag = tag' := append_cancel_left heq
    exact ⟨hsite, htag'⟩
  · rintro ⟨hsite, htag⟩
    exact ⟨tag, htag, by rw [hsite]⟩

theorem current_of_put {w' : Write} (h : (sys.step p (.put w)).Current path w')
    (hne : w.path ≠ .ok path) : sys.Current path w' := by
  have hlast : sys.lastWrite path = some w' := by
    have hcons : (sys.step p (.put w)).lastWrite path = _ := lastWrite_cons _ w sys.writes path
    rw [if_neg hne] at hcons
    exact hcons.symm.trans h.last
  have hclock : (sys.step p (.put w)).stores.clock = sys.stores.clock := clock_run _ _
  have hobjects : (sys.step p (.put w)).stores.objects.lookup path =
      sys.stores.objects.lookup path := by
    obtain ⟨-, hstep⟩ | ⟨path', s, hpath', hstep, hobjects, -, -⟩ := step_put p w sys
    · rw [hstep]
    · rw [hstep, hobjects]
      exact AList.lookup_insert_ne fun heq => hne (heq ▸ hpath')
  exact ⟨hlast, hobjects ▸ h.body, hclock ▸ h.unexpired⟩

theorem Indexed.put (h : Indexed site tag sys) (p : Profile) (htidy : Tidy site tag sys (.put w)) :
    Indexed site tag (sys.step p (.put w)) := by
  obtain ⟨hapart, hlong, hlisted⟩ := htidy
  have hlast : ∀ path, (sys.step p (.put w)).lastWrite path
      = if w.path = .ok path then some w else sys.lastWrite path :=
    fun path => lastWrite_cons _ w sys.writes path
  constructor
  · intro path w' hcur htagged
    cases hpath : w.path with
    | error stop =>
      have hbefore := current_of_put p hcur (hpath ▸ nofun)
      have hsame : (sys.step p (.put w)).stores = sys.stores := run_put_fault p hpath sys.stores
      exact (h.complete hbefore htagged).congr (by rw [hsame])
    | ok written =>
      have hset : (sys.step p (.put w)).stores.redis.lookup (tagKey site tag) = _ :=
        lookup_put p hpath h.sound.sets (tagKey site tag) ⟨site, tag, rfl⟩
      rw [if_congr (tagged_iff_of_apart hapart) rfl rfl] at hset
      by_cases hw : w.Tagged site tag
      · rw [if_pos hw] at hset
        by_cases hsame : w.path = .ok path
        · obtain rfl : w = w' := by
            have hcons := (hlast path).symm.trans hcur.last
            rw [if_pos hsame] at hcons
            exact Option.some.inj hcons
          exact ⟨_, _, hset, mem_insert_self .., (hlong hw).1⟩
        · have hbefore := current_of_put p hcur hsame
          have hmem := (h.complete hbefore htagged).mem_membersOf hbefore.unexpired
          exact ⟨_, _, hset, mem_insert_of_mem hmem, (hlong hw).2 path w' hbefore htagged hsame⟩
      · rw [if_neg hw] at hset
        have hne : w.path ≠ .ok path := by
          intro hsame
          have hcons := (hlast path).symm.trans hcur.last
          rw [if_pos hsame] at hcons
          exact hw (Option.some.inj hcons ▸ htagged)
        exact (h.complete (current_of_put p hcur hne) htagged).congr hset
  · refine members_put p w h.sound ?_ ?_
    · intro key m hm hmember hkey
      subst hkey
      obtain ⟨path, w', hpath, hw', htagged⟩ := hmember rfl
      by_cases hsame : w.path = .ok path
      · refine ⟨path, w, hpath, by rw [hlast, if_pos hsame], ?_⟩
        by_contra hnot
        exact hlisted hnot m hm (hpath.trans hsame.symm)
      · exact ⟨path, w', hpath, by rw [hlast, if_neg hsame, hw'], htagged⟩
    · intro path hpath tag' htag' heq
      have htagged : w.Tagged site tag := (tagged_iff_of_apart hapart).1 ⟨tag', htag', heq.symm⟩
      exact ⟨path, w, htagged.1 ▸ hpath, by rw [hlast, if_pos hpath], htagged⟩

/-- **The index over runs.** In every state that a tidy run reaches, the set of the tag lists the
entries with the tag and no others. -/
theorem indexed_run : ∀ {events : List CacheEvent} {sys : CacheSystem},
    TidyRun p site tag events sys → Indexed site tag sys → Indexed site tag (run p events sys) := by
  intro events
  induction events with
  | nil => intro sys _ h; exact h
  | cons e events ih =>
    intro sys htidy h
    refine ih htidy.2 ?_
    by_cases hput : ∃ w, e = .put w
    · obtain ⟨w, rfl⟩ := hput
      exact h.put p htidy.1
    · exact h.step p (fun w hw => hput ⟨w, hw⟩) htidy.1

/-! ## What a purge by tag does -/

/-- A read of the entry returns it. -/
def Readable (p : Profile) (s : Stores) (w : Write) : Prop :=
  ∃ answer, ((full.getWithStale p w.siteId w.cacheKey).run serve s).1 = .ok (some answer)

/-- No unexpired entry with the tag can be read any more, and all others can be read that could be.
-/
structure PurgesTag (p : Profile) (site tag : Str) (sys : CacheSystem) (purged : Stores) :
    Prop where
  gone : ∀ path w, sys.lastWrite path = some w → w.Tagged site tag →
    sys.stores.clock.timestamp < w.metadata.expiresAt → ¬ Readable p purged w
  kept : ∀ path w, sys.lastWrite path = some w → ¬ w.Tagged site tag → Readable p sys.stores w →
    Readable p purged w

variable {p : Profile} {s s' : Stores} {w : Write} {path : Str}

theorem Readable.body (hpath : w.path = .ok path) (h : Readable p s w) :
    (s.objects.lookup path).isSome := by
  obtain ⟨⟨r, stale⟩, hread⟩ := h
  exact Option.isSome_iff_exists.2 ⟨r.body, (of_getWithStale hpath hread).1⟩

theorem Readable.fades (hpath : w.path = .ok path) (h : Readable p s w) (hfades : s.Fades s')
    (hclock : s'.clock = s.clock) (hbody : s'.objects.lookup path = s.objects.lookup path) :
    Readable p s' w := by
  cases hmeta : s'.metaOf (metaKey w.siteId w.cacheKey) with
  | none =>
    obtain ⟨body, hsome⟩ := Option.isSome_iff_exists.1 (h.body hpath)
    have hread := getWithStale_of_none (p := p) hpath hmeta
    rw [hbody, hsome] at hread
    exact ⟨_, hread⟩
  | some found =>
    obtain ⟨deadline, hlookup, -⟩ := lookup_of_metaOf hmeta
    have hsame : s.SameEntry w.siteId w.cacheKey s' := by
      refine ⟨hclock, ?_, fun path' hpath' => ?_⟩
      · rw [hlookup, hfades.redis (not_isTagKey_metaKey _ _) hlookup]
      · obtain rfl : path = path' := ok_unique hpath hpath'
        exact hbody
    obtain ⟨answer, hread⟩ := h
    exact ⟨answer, (hsame.read (only_getWithStale w.siteId w.cacheKey p)).symm.trans hread⟩

/-- **A purge by tag in a tidy run.** After it has returned `Ok`, no unexpired entry whose last
write carried the tag can be read, and every other entry can be read that could be before. -/
theorem purgesTag_of_tidy (p : Profile) (clock : Clock) (events : List CacheEvent) (site tag : Str)
    (htidy : TidyRun p site tag events (empty clock)) (count : Nat) (purged : Stores)
    (hok : (CacheStorage.full.deleteByTag p site tag).run Stores.serve
      (run p events (empty clock)).stores
      = (.ok (.ok count), purged)) :
    PurgesTag p site tag (run p events (empty clock)) purged := by
  have hindex : Indexed site tag (run p events (empty clock)) :=
    indexed_run p htidy ⟨(fun hcur => by cases hcur.last), members_empty _ clock⟩
  generalize run p events (empty clock) = sys at hok hindex ⊢
  have hfades : sys.stores.Fades purged := by
    have honly : (full.deleteByTag p site tag).Only Fading :=
      (only_deleteByTag p site tag).mono fun _ hc => hc.1
    have hrun := fades_run honly sys.stores
    rwa [hok] at hrun
  rcases run_deleteByTag p site tag hindex.sound.sets with ⟨f, hrun⟩ |
    ⟨paths, s', hpaths, hrun, hclock, hobjects⟩
  · cases hok.symm.trans hrun
  obtain rfl : purged = s' := congrArg Prod.snd (hok.symm.trans hrun)
  constructor
  · intro path w hlast htagged hunexpired hread
    have hpath := path_of_lastWrite hlast
    have hbody := hread.body hpath
    obtain ⟨body, hsome⟩ := Option.isSome_iff_exists.1 hbody
    have hcur : sys.Current path w :=
      ⟨hlast, Option.isSome_iff_exists.2 ⟨body, hfades.objects hsome⟩, hunexpired⟩
    have hmem := (hindex.complete hcur htagged).mem_membersOf hunexpired
    have hmem' := (mem_iff_of_mapM hpaths).2 ⟨_, hmem, hcur.cacheObjectPath htagged⟩
    rw [hobjects, lookup_foldl_erase, if_pos hmem'] at hbody
    cases hbody
  · intro path w hlast hnot hread
    have hpath := path_of_lastWrite hlast
    refine hread.fades hpath hfades hclock ?_
    rw [hobjects]
    refine (lookup_foldl_erase ..).trans (if_neg fun hmem => ?_)
    obtain ⟨m, hm, hm'⟩ := (mem_iff_of_mapM hpaths).1 hmem
    obtain ⟨path', w', hpath', hlast', htagged⟩ := hindex.sound.member _ ⟨site, tag, rfl⟩ m hm rfl
    obtain rfl : path' = path := ok_unique hpath' hm'
    obtain rfl : w' = w := Option.mem_unique hlast' hlast
    exact hnot htagged

def newsPage : Write :=
  { notFoundPage with status := 200, ttl := 86400, tags := ["news"] }

def shopPage : Write := { newsPage with siteId := "shop", cacheKey := "1a2b" }

theorem tidyRun_two_sites :
    TidyRun .release "site" "news" [.put newsPage, .put shopPage] (empty ⟨0, by decide⟩) := by
  have hfirst : ∀ path w', ¬ (empty ⟨0, by decide⟩).Current path w' :=
    fun path w' h => by cases h.last
  refine ⟨⟨fun hne => absurd rfl hne, fun _ =>
    ⟨by decide, fun path w' h => absurd h (hfirst path w')⟩,
      fun hnot => absurd (by decide) hnot⟩,
    ⟨by decide, fun h => absurd h (by decide), fun _ => by decide +kernel⟩, trivial⟩

theorem purgesTag_of_tidy_two_sites :
    TidyRun .release "site" "news" [.put newsPage, .put shopPage] (empty ⟨0, by decide⟩) ∧
      PurgesTag .release "site" "news"
        (run .release [.put newsPage, .put shopPage] (empty ⟨0, by decide⟩))
        ((CacheStorage.full.deleteByTag .release "site" "news").run Stores.serve
          (run .release [.put newsPage, .put shopPage] (empty ⟨0, by decide⟩)).stores).2 := by
  have hok : ((full.deleteByTag .release "site" "news").run serve
      (run .release [.put newsPage, .put shopPage] (empty ⟨0, by decide⟩)).stores).1 =
        .ok (.ok 0) := by
    decide +kernel
  exact ⟨tidyRun_two_sites, purgesTag_of_tidy .release ⟨0, by decide⟩ _ _ _ tidyRun_two_sites 0 _
    (Prod.ext hok rfl)⟩

/-- A second page under the tag, for ten seconds only, and an hour and eleven seconds pass. -/
def shortenedRun : List CacheEvent :=
  [.put newsPage, .put { newsPage with cacheKey := "1a2b", ttl := 10 },
    .advance ⟨3611000, by decide⟩]

def untaggedPage : Write := { newsPage with tags := [] }

/-- The set of the tag went an hour after the short-lived page, so the purge finds nothing and the
page of the day stays. -/
theorem purgesTag_fails :
    (((CacheStorage.full.deleteByTag .release "site" "news").run Stores.serve
          (run .release shortenedRun (empty ⟨0, by decide⟩)).stores).1 = .ok (.ok 0) ∧
      (run .release shortenedRun (empty ⟨0, by decide⟩)).lastWrite notFoundPath = some newsPage ∧
      newsPage.Tagged "site" "news" ∧
      (run .release shortenedRun (empty ⟨0, by decide⟩)).stores.clock.timestamp <
        newsPage.metadata.expiresAt ∧
      Readable .release ((CacheStorage.full.deleteByTag .release "site" "news").run Stores.serve
        (run .release shortenedRun (empty ⟨0, by decide⟩)).stores).2 newsPage) ∧
    (((CacheStorage.full.deleteByTag .release "site" "news").run Stores.serve
          (run .release [.put newsPage, .put untaggedPage] (empty ⟨0, by decide⟩)).stores).1 =
            .ok (.ok 0) ∧
      (run .release [.put newsPage, .put untaggedPage] (empty ⟨0, by decide⟩)).lastWrite
        notFoundPath
        = some untaggedPage ∧
      ¬ untaggedPage.Tagged "site" "news" ∧
      Readable .release (run .release [.put newsPage, .put untaggedPage]
        (empty ⟨0, by decide⟩)).stores
        untaggedPage ∧
      ¬ Readable .release ((CacheStorage.full.deleteByTag .release "site" "news").run Stores.serve
        (run .release [.put newsPage, .put untaggedPage] (empty ⟨0, by decide⟩)).stores).2
          untaggedPage) := by
  refine ⟨⟨by decide +kernel, by decide +kernel, by decide, by decide +kernel,
    (⟨newsPage.metadata, newsPage.body⟩, false), ?_⟩,
    by decide +kernel, by decide +kernel, by decide,
      ⟨(⟨untaggedPage.metadata, untaggedPage.body⟩, false), ?_⟩, fun h => ?_⟩
  · decide +kernel
  · decide +kernel
  · have hpath : untaggedPage.path = .ok notFoundPath := by decide
    have hbody := h.body hpath
    exact absurd hbody (by decide +kernel)

/-- **What was never in the set of a tag survives its purge.** After any run, an entry that can be
read can still be read after a purge, unless it has the path of a key that was written with a tag of
that set. -/
theorem readable_deleteByTag (p : Profile) (clock : Clock) (events : List CacheEvent)
    (site tag : Str) {w : Write} {path : Str} (hpath : w.path = .ok path)
    (hnever : ∀ w' ∈ (run p events (empty clock)).writes, ∀ tag' ∈ w'.tags,
      tagKey w'.siteId tag' = tagKey site tag → cacheObjectPath site w'.cacheKey ≠
      (.ok path : Exec Empty Str))
    (hread : Readable p (run p events (empty clock)).stores w) :
    Readable p ((CacheStorage.full.deleteByTag p site tag).run Stores.serve
      (run p events (empty clock)).stores).2 w := by
  have hmembers := writtenInto_run p events (members_empty _ clock)
  generalize run p events (empty clock) = sys at *
  have hfades := fades_run (t := CacheStorage.full.deleteByTag p site tag)
    ((only_deleteByTag p site tag).mono fun _ hc => hc.1) sys.stores
  rcases run_deleteByTag p site tag hmembers.sets with ⟨f, hrun⟩ |
    ⟨paths, s', hpaths, hrun, hclock, hobjects⟩
  · rw [hrun]
    exact hread
  rw [hrun] at hfades ⊢
  refine hread.fades hpath hfades hclock ?_
  rw [hobjects]
  refine (lookup_foldl_erase ..).trans (if_neg fun hmem => ?_)
  obtain ⟨m, hm, hm'⟩ := (mem_iff_of_mapM hpaths).1 hmem
  obtain ⟨w', hw', rfl, tag', htag', hkey⟩ := hmembers.member _ ⟨site, tag, rfl⟩ m hm
  exact hnever w' hw' tag' htag' hkey.symm hm'

theorem readable_deleteByTag_shop : Readable .release
    ((CacheStorage.full.deleteByTag .release "site" "news").run Stores.serve
      (run .release [.put newsPage, .put shopPage] (empty ⟨0, by decide⟩)).stores).2 shopPage := by
  have hpath : shopPage.path = (.ok "cache/shop/1a/1a2b" : Exec Empty Str) := by decide
  exact readable_deleteByTag .release ⟨0, by decide⟩ _ _ _ hpath (by decide +kernel)
    ⟨(⟨shopPage.metadata, shopPage.body⟩, false), by decide +kernel⟩

end CacheSystem

end Nozdormu.Cache
