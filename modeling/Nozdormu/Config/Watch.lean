import Nozdormu.Config.LiveConfig

/-!
# Following etcd

`cdn-config/src/etcd_watcher.rs`: `load_all` builds the live configuration from everything etcd
holds, `watch_once` changes it event by event. `watch_iff` says for which contents and events the
two agree, whatever the batches: a site must not survive a value that cannot be read, and no domain
may be claimed by two sites.
-/

namespace Nozdormu.Config

open Rust List

/-- A key of etcd: text, or bytes that are no UTF-8. -/
inductive Key where
  | text (s : Str)
  | bytes (b : List UInt8)
deriving DecidableEq, Repr

abbrev Content (ω : Type) := AList fun _ : Key => ω

/-- A put, or a delete if there is no value. -/
structure WatchEvent (ω : Type) where
  key : Key
  value : Option ω
  /-- `mod_revision` -/
  revision : Nat

/-- The parts of `EtcdConfigManager` that do not change. -/
structure Manager (ρ ω : Type) where
  etcdPrefix : Str
  nodeLabels : List Str
  /-- `serde_json::from_slice` -/
  parse : ω → Option (SiteConfig ρ)
  /-- `to_lowercase` -/
  lower : Str → Str

/-- One response of the watch stream, and the walk over the map it leads to. -/
structure Batch (ρ ω : Type) where
  events : List (WatchEvent ω)
  order : WalkOrder ρ

structure Tally (ρ : Type) where
  sites : Sites ρ
  changed : Bool := false
  maxRevision : Nat := 0

namespace Manager

variable {ρ ω : Type} (self : Manager ρ ω)

def sitesPrefix : Str := self.etcdPrefix ++ "/sites/"

/-- Keys that do not name a site are skipped. -/
def siteId : Key → Option Str
  | .bytes _ => none
  | .text key => (stripStart self.sitesPrefix key).filter fun id => !id.isEmpty

def matchesLabels (site : SiteConfig ρ) : Bool :=
  site.targetLabels.isEmpty || site.targetLabels.any (self.nodeLabels.contains ·)

/-- A value that cannot be read is skipped as well. -/
def parseEntry (sites : Sites ρ) (kv : Sigma fun _ : Key => ω) : Sites ρ :=
  match self.siteId kv.1 with
  | none => sites
  | some id =>
    match self.parse kv.2 with
    | some site => sites.insert id site
    | none => sites

def filterSitesByLabels (sites : Sites ρ) : Sites ρ :=
  ⟨sites.entries.filter fun entry => self.matchesLabels entry.2,
    sites.nodupKeys.sublist filter_sublist⟩

def loadSites (content : Content ω) : Sites ρ :=
  self.filterSitesByLabels (content.entries.foldl self.parseEntry ∅)

def loadAll (order : WalkOrder ρ) (content : Content ω) : LiveConfig ρ :=
  config self.lower order (self.loadSites content)

/-- The sites after a put or a delete, unless they stay as they are. -/
def change (id : Str) (value : Option ω) (sites : Sites ρ) : Option (Sites ρ) :=
  match value with
  | none => some (sites.erase id)
  | some value =>
    match self.parse value with
    | none => none
    | some site =>
      if self.matchesLabels site then some (sites.insert id site)
      else if (sites.lookup id).isSome then some (sites.erase id)
      else none

def noteEvent (tally : Tally ρ) (e : WatchEvent ω) : Tally ρ :=
  match self.siteId e.key with
  | none => tally
  | some id =>
    let maxRevision := max tally.maxRevision e.revision
    match self.change id e.value tally.sites with
    | some sites => ⟨sites, true, maxRevision⟩
    | none => { tally with maxRevision }

def tallyOf (sites : Sites ρ) (events : List (WatchEvent ω)) : Tally ρ :=
  events.foldl self.noteEvent { sites }

/-- One turn of the loop of `watch_once`; the revision is noted afterwards. -/
def watchOnce (live : LiveConfig ρ) (batch : Batch ρ ω) : LiveConfig ρ :=
  let tally := self.tallyOf live.sites batch.events
  if tally.changed then config self.lower batch.order tally.sites else live

def watch (live : LiveConfig ρ) (batches : List (Batch ρ ω)) : LiveConfig ρ :=
  batches.foldl self.watchOnce live

end Manager

def Content.apply {ω : Type} (content : Content ω) (e : WatchEvent ω) : Content ω :=
  match e.value with
  | some value => content.insert e.key value
  | none => content.erase e.key

namespace Manager

variable {ρ ω : Type} {self : Manager ρ ω}

/-! ## The values of one site -/

def keyOf (self : Manager ρ ω) (id : Str) : Key := .text (self.sitesPrefix ++ id)

theorem siteId_eq_some_iff {key : Key} {id : Str} :
    self.siteId key = some id ↔ key = self.keyOf id ∧ id ≠ [] := by
  cases key with
  | bytes b => simp [siteId, keyOf]
  | text s =>
    simp only [siteId, keyOf, Option.filter_eq_some_iff, stripStart_eq_some_iff, Key.text.injEq]
    simp

def valueOf (self : Manager ρ ω) (content : Content ω) (id : Str) : Option ω :=
  if id = [] then none else content.lookup (self.keyOf id)

variable (content : Content ω)

theorem valueOf_apply (e : WatchEvent ω) (id : Str) : self.valueOf (content.apply e) id =
      if self.siteId e.key = some id then e.value else self.valueOf content id := by
  unfold valueOf
  by_cases hid : id = []
  · simp [hid, siteId_eq_some_iff]
  simp only [siteId_eq_some_iff, hid, ne_eq, not_false_eq_true, and_true]
  unfold Content.apply
  by_cases hkey : e.key = self.keyOf id
  · cases hvalue : e.value with
    | none | some => simp [hkey]
  · cases hvalue : e.value with
    | none => simp [hkey, AList.lookup_erase_ne (Ne.symm hkey)]
    | some value => simp [hkey, AList.lookup_insert_ne (Ne.symm hkey)]

def accept (self : Manager ρ ω) (value : Option ω) : Option (SiteConfig ρ) :=
  (value.bind self.parse).filter fun site => self.matchesLabels site

def readable (self : Manager ρ ω) (value : Option ω) : Bool :=
  value.all fun value => (self.parse value).isSome

theorem accept_none : self.accept none = none := rfl

theorem accept_of_not_readable {value : Option ω} (h : self.readable value = false) :
    self.accept value = none := by
  cases value with
  | none => rfl
  | some value =>
    have hparse : self.parse value = none := by simpa [readable] using h
    simp [accept, hparse]

/-! ## `load_all` -/

theorem lookup_parseEntry (sites : Sites ρ) (kv : Sigma fun _ : Key => ω) (id : Str) :
    (self.parseEntry sites kv).lookup id =
      if self.siteId kv.1 = some id then (self.parse kv.2).or (sites.lookup id)
      else sites.lookup id := by
  unfold parseEntry
  cases hid : self.siteId kv.1 with
  | none => simp
  | some id' =>
    cases hparse : self.parse kv.2 with
    | none => simp
    | some site =>
      by_cases hsame : id = id'
      · obtain rfl := hsame
        simp
      · simp [AList.lookup_insert_ne hsame, Ne.symm hsame]

theorem lookup_foldl_parseEntry {id : Str} (hid : id ≠ []) {kvs : List (Sigma fun _ : Key => ω)}
    (hnodup : kvs.NodupKeys) (sites : Sites ρ) :
    (kvs.foldl self.parseEntry sites).lookup id =
      ((kvs.dlookup (self.keyOf id)).bind self.parse).or (sites.lookup id) := by
  induction kvs generalizing sites with
  | nil => rfl
  | cons kv kvs ih =>
    rw [foldl_cons, ih (nodupKeys_of_nodupKeys_cons hnodup), lookup_parseEntry]
    obtain ⟨key, value⟩ := kv
    by_cases hkey : key = self.keyOf id
    · obtain rfl := hkey
      have hlater : kvs.dlookup (self.keyOf id) = none :=
        dlookup_eq_none.2 (notMem_keys_of_nodupKeys_cons hnodup)
      rw [if_pos (siteId_eq_some_iff.2 ⟨rfl, hid⟩), hlater, dlookup_cons_eq]
      rfl
    · rw [if_neg fun h => hkey (siteId_eq_some_iff.1 h).1, dlookup_cons_ne _ _ (Ne.symm hkey)]

theorem lookup_filterSitesByLabels (sites : Sites ρ) (id : Str) :
    (self.filterSitesByLabels sites).lookup id =
      (sites.lookup id).filter fun site => self.matchesLabels site := by
  refine Option.ext fun site => ?_
  rw [← Option.mem_def, AList.mem_lookup_iff]
  simp only [filterSitesByLabels, mem_filter, Option.filter_eq_some_iff]
  exact and_congr_left' AList.mem_lookup_iff.symm

theorem lookup_loadSites (id : Str) :
    (self.loadSites content).lookup id = self.accept (self.valueOf content id) := by
  rw [loadSites, lookup_filterSitesByLabels, accept, valueOf]
  by_cases hid : id = []
  · -- no key names the empty id
    have hnone : ∀ (kvs : List (Sigma fun _ : Key => ω)) sites, sites.lookup [] = none →
        (kvs.foldl self.parseEntry sites).lookup [] = none := by
      intro kvs
      induction kvs with
      | nil => exact fun _ h => h
      | cons kv kvs ih =>
        intro sites h
        refine ih _ ?_
        rw [lookup_parseEntry, if_neg fun h => (siteId_eq_some_iff.1 h).2 rfl, h]
    rw [if_pos hid, hid, hnone _ _ (AList.lookup_empty [])]
    rfl
  · rw [if_neg hid, lookup_foldl_parseEntry hid content.nodupKeys,
      AList.lookup_empty, Option.or_none]
    rfl

/-! ## `watch_once` -/

def next (self : Manager ρ ω) (current : Option (SiteConfig ρ)) (value : Option ω) :
    Option (SiteConfig ρ) :=
  if self.readable value then self.accept value else current

theorem lookup_change (id : Str) (value : Option ω) (sites : Sites ρ) :
    ((self.change id value sites).getD sites).lookup id = self.next (sites.lookup id) value := by
  unfold change next
  cases value with
  | none => simp [readable, accept]
  | some value =>
    cases hparse : self.parse value with
    | none => simp [hparse, readable]
    | some site =>
      have hreadable : self.readable (some value) = true := by simp [readable, hparse]
      rw [hreadable, if_pos rfl]
      simp only [hparse, accept, Option.bind_some, Option.filter_some]
      by_cases hmatches : self.matchesLabels site = true
      · simp [hmatches]
      · by_cases hpresent : (sites.lookup id).isSome = true
        · simp [hmatches, hpresent]
        · simp only [hmatches, hpresent]
          simpa using hpresent

theorem lookup_change_ne {id id' : Str} (hne : id' ≠ id) (value : Option ω) (sites : Sites ρ) :
    ((self.change id value sites).getD sites).lookup id' = sites.lookup id' := by
  unfold change
  cases value with
  | none => exact AList.lookup_erase_ne hne
  | some value =>
    dsimp only
    split
    · rfl
    split
    · exact AList.lookup_insert_ne hne
    split
    · exact AList.lookup_erase_ne hne
    · rfl

theorem sites_noteEvent {tally : Tally ρ} {e : WatchEvent ω} {id : Str}
    (hid : self.siteId e.key = some id) :
    (self.noteEvent tally e).sites = (self.change id e.value tally.sites).getD tally.sites := by
  unfold noteEvent
  rw [hid]
  dsimp only
  cases self.change id e.value tally.sites <;> rfl

theorem lookup_noteEvent (tally : Tally ρ) (e : WatchEvent ω) (id : Str) :
    (self.noteEvent tally e).sites.lookup id =
      if self.siteId e.key = some id then self.next (tally.sites.lookup id) e.value
      else tally.sites.lookup id := by
  cases hid : self.siteId e.key with
  | none => simp [noteEvent, hid]
  | some id' =>
    rw [sites_noteEvent hid]
    by_cases hsame : id' = id
    · obtain rfl := hsame
      rw [if_pos rfl, lookup_change]
    · rw [if_neg fun h => hsame (Option.some.inj h), lookup_change_ne (Ne.symm hsame)]

theorem sites_of_not_changed {sites : Sites ρ} {events : List (WatchEvent ω)}
    (h : (self.tallyOf sites events).changed = false) :
    (self.tallyOf sites events).sites = sites := by
  have hlast : ∀ tally e, (self.noteEvent tally e).changed = false →
      tally.changed = false ∧ (self.noteEvent tally e).sites = tally.sites := by
    intro tally e hchanged
    cases hid : self.siteId e.key with
    | none =>
      have hnote : self.noteEvent tally e = tally := by simp only [noteEvent, hid]
      rw [hnote] at hchanged ⊢
      exact ⟨hchanged, rfl⟩
    | some id =>
      rw [sites_noteEvent hid]
      simp only [noteEvent, hid] at hchanged
      cases hchange : self.change id e.value tally.sites with
      | none =>
        rw [hchange] at hchanged
        exact ⟨hchanged, rfl⟩
      | some sites =>
        rw [hchange] at hchanged
        cases hchanged
  induction events using List.reverseRecOn with
  | nil => rfl
  | append_singleton events e ih =>
    rw [tallyOf, foldl_append] at h ⊢
    obtain ⟨hbefore, hsame⟩ := hlast _ e h
    exact hsame.trans (ih hbefore)

/-- The values of a site: the one at the beginning, then one for each of its events. -/
def history (self : Manager ρ ω) (content : Content ω) (events : List (WatchEvent ω)) (id : Str) :
    List (Option ω) :=
  self.valueOf content id :: (events.filter fun e => self.siteId e.key = some id).map (·.value)

def lastReadable (self : Manager ρ ω) (history : List (Option ω)) : Option ω :=
  (history.reverse.find? fun value => self.readable value).getD none

theorem lastReadable_concat (history : List (Option ω)) (value : Option ω) :
    self.lastReadable (history ++ [value]) =
      if self.readable value then value else self.lastReadable history := by
  unfold lastReadable
  cases hreadable : self.readable value <;> simp [hreadable]

variable (events : List (WatchEvent ω))

theorem history_concat (e : WatchEvent ω) (id : Str) : self.history content (events ++ [e]) id =
      self.history content events id ++ if self.siteId e.key = some id then [e.value] else [] := by
  unfold history
  by_cases hid : self.siteId e.key = some id <;> simp [hid]

theorem valueOf_foldl (id : Str) : self.valueOf (events.foldl Content.apply content) id =
      (self.history content events id).getLastD none := by
  induction events using List.reverseRecOn with
  | nil => rfl
  | append_singleton events e ih =>
    rw [foldl_append, history_concat]
    show self.valueOf (Content.apply _ e) id = _
    rw [valueOf_apply]
    split
    · simp
    · simpa using ih

theorem lookup_tallyOf (id : Str) : (self.tallyOf (self.loadSites content) events).sites.lookup id =
      self.accept (self.lastReadable (self.history content events id)) := by
  induction events using List.reverseRecOn with
  | nil =>
    show (self.loadSites content).lookup id = _
    rw [lookup_loadSites]
    cases hreadable : self.readable (self.valueOf content id) with
    | true => simp [lastReadable, history, hreadable]
    | false => simp [lastReadable, history, hreadable, accept_of_not_readable, accept_none]
  | append_singleton events e ih =>
    rw [tallyOf, foldl_append, history_concat]
    show (self.noteEvent (self.tallyOf (self.loadSites content) events) e).sites.lookup id = _
    rw [lookup_noteEvent, ih]
    split
    · rw [lastReadable_concat, next]
      split <;> rfl
    · rw [append_nil]

theorem sites_foldl_congr {tally tally' : Tally ρ} (h : tally.sites = tally'.sites)
    (events : List (WatchEvent ω)) :
    (events.foldl self.noteEvent tally).sites = (events.foldl self.noteEvent tally').sites := by
  induction events generalizing tally tally' with
  | nil => exact h
  | cons e events ih =>
    refine ih ?_
    cases hid : self.siteId e.key with
    | none => simpa only [noteEvent, hid] using h
    | some id => rw [sites_noteEvent hid, sites_noteEvent hid, h]

variable (live : LiveConfig ρ)

theorem sites_watchOnce (batch : Batch ρ ω) :
    (self.watchOnce live batch).sites = (self.tallyOf live.sites batch.events).sites := by
  unfold watchOnce
  dsimp only
  split
  next => rfl
  next hunchanged => exact (sites_of_not_changed (Bool.eq_false_iff.2 hunchanged)).symm

theorem sites_watch (batches : List (Batch ρ ω)) : (self.watch live batches).sites =
      (self.tallyOf live.sites (batches.flatMap (·.events))).sites := by
  induction batches generalizing live with
  | nil => rfl
  | cons batch batches ih =>
    refine (ih _).trans ?_
    simp only [sites_watchOnce, flatMap_cons, tallyOf, foldl_append]
    refine sites_foldl_congr ?_ _
    rfl

theorem watch_eq_config {O : WalkOrder ρ → Prop} (batches : List (Batch ρ ω))
    (hlive : ∃ order, O order ∧ live = config self.lower order live.sites)
    (hbatches : ∀ batch ∈ batches, O batch.order) :
    ∃ order, O order ∧
      self.watch live batches = config self.lower order (self.watch live batches).sites := by
  induction batches generalizing live with
  | nil => exact hlive
  | cons batch batches ih =>
    refine ih _ ?_ fun batch' hbatch' => hbatches batch' (mem_cons_of_mem batch hbatch')
    unfold watchOnce
    dsimp only
    split
    · exact ⟨batch.order, hbatches batch mem_cons_self, rfl⟩
    · exact hlive

/-- Where the last value of a site cannot be read, none is left from before. -/
def NothingLeft (self : Manager ρ ω) (content : Content ω) (events : List (WatchEvent ω)) : Prop :=
  ∀ id, self.readable ((self.history content events id).getLastD none) = false →
    self.accept (self.lastReadable (self.history content events id)) = none

theorem lastReadable_of_readable {history : List (Option ω)}
    (h : self.readable (history.getLastD none) = true) :
    self.accept (self.lastReadable history) = self.accept (history.getLastD none) := by
  induction history using List.reverseRecOn with
  | nil => rfl
  | append_singleton history value _ =>
    rw [getLastD_concat] at h ⊢
    rw [lastReadable_concat, if_pos h]

/-- Watching leads to the sites that loading would find, exactly if nothing is left of values that
were overwritten by unreadable ones. -/
theorem nothingLeft_iff : (∀ id, self.accept (self.lastReadable (self.history content events id)) =
        self.accept ((self.history content events id).getLastD none)) ↔
      self.NothingLeft content events := by
  refine forall_congr' fun id => ?_
  cases hreadable : self.readable ((self.history content events id).getLastD none) with
  | true => exact iff_of_true (lastReadable_of_readable hreadable) nofun
  | false =>
    rw [accept_of_not_readable hreadable]
    exact ⟨fun h _ => h, fun h => h rfl⟩

/-- Loading and then watching gives the same sites and the same routing as loading at the end,
whatever the batches and the walks, exactly if nothing is left of overwritten values and no domain
is disputed in the end. -/
theorem watch_iff (self : Manager ρ ω) (content : Content ω)
    (batches : List (List (WatchEvent ω))) :
    (∀ (order order' : WalkOrder ρ) (watched : List (Batch ρ ω)), watched.map (·.events) = batches →
      SameConfig (self.watch (self.loadAll order content) watched)
        (self.loadAll order' (batches.flatten.foldl Content.apply content))) ↔
      self.NothingLeft content batches.flatten ∧
        Undisputed self.lower
          fun id => self.accept ((self.history content batches.flatten id).getLastD none) := by
  have hflatten : ∀ watched : List (Batch ρ ω), watched.map (·.events) = batches →
      watched.flatMap (·.events) = batches.flatten := by
    rintro watched rfl
    exact flatMap_def
  have hwatched : ∀ order watched, watched.map (·.events) = batches → ∀ id,
      (self.watch (self.loadAll order content) watched).sites.lookup id =
        self.accept (self.lastReadable (self.history content batches.flatten id)) := by
    intro order watched hmap id
    rw [sites_watch, hflatten watched hmap]
    exact lookup_tallyOf content batches.flatten id
  have hloaded : ∀ id, (self.loadSites (batches.flatten.foldl Content.apply content)).lookup id =
      self.accept ((self.history content batches.flatten id).getLastD none) := by
    intro id
    rw [lookup_loadSites, valueOf_foldl]
  constructor
  · intro h
    -- the same walk in every batch
    have hrun : ∀ order : WalkOrder ρ, (batches.map fun events => (⟨events, order⟩ : Batch ρ ω)).map
        (·.events) = batches := by
      intro order
      rw [map_map]
      exact map_id batches
    have hleft : self.NothingLeft content batches.flatten := by
      refine (nothingLeft_iff content batches.flatten).1 fun id => ?_
      have order : WalkOrder ρ := WalkOrder.last []
      rw [← hwatched order _ (hrun order), ← hloaded]
      exact (h order order _ (hrun order)).sites id
    refine ⟨hleft, ?_⟩
    intro domain id id' site site' hsite hsite' hclaims hclaims'
    -- one walk comes to the one site last, the other to the other
    have hsame := h (.last id) (.last id') _ (hrun (.last id))
    obtain ⟨order, rfl, hconfig⟩ := watch_eq_config
      (self.loadAll (.last id) content) (batches.map fun events => ⟨events, .last id⟩) ⟨_, rfl, rfl⟩
      (by simp)
    have hfirst : (self.watch (self.loadAll (.last id) content)
        (batches.map fun events => ⟨events, .last id⟩)).sites.lookup id = some site := by
      rw [hwatched _ _ (hrun (.last id)), (nothingLeft_iff content batches.flatten).2 hleft id]
      exact hsite
    have hclaim := ((sameConfig_iff hconfig rfl).1 hsame).2 domain
    rw [lastClaim_last hfirst hclaims] at hclaim
    exact Option.some.inj (hclaim.trans (lastClaim_last ((hloaded id').trans hsite') hclaims'))
  · rintro ⟨hleft, hundisputed⟩ order order' watched hmap
    obtain ⟨order'', -, hconfig⟩ := watch_eq_config (O := fun _ => True)
      (self.loadAll order content) watched ⟨order, trivial, rfl⟩ fun _ _ => trivial
    have hsites : ∀ id, (self.watch (self.loadAll order content) watched).sites.lookup id =
        (self.loadSites (batches.flatten.foldl Content.apply content)).lookup id := by
      intro id
      rw [hwatched order watched hmap, hloaded]
      exact (nothingLeft_iff content batches.flatten).2 hleft id
    refine (sameConfig_iff hconfig rfl).2 ⟨hsites, lastClaim_congr hsites ?_ _ _⟩
    simp only [hsites, hloaded]
    exact hundisputed

/-- A node without labels; the value `none` stands for one that is no site. -/
def plainNode : Manager Unit (Option (SiteConfig Unit)) where
  etcdPrefix := "/cdn"
  nodeLabels := []
  parse := id
  lower := id

def plainSite : SiteConfig Unit := ⟨true, ["a.test"], [], ()⟩

def oneSite : Content (Option (SiteConfig Unit)) :=
  AList.singleton (.text "/cdn/sites/a") (some plainSite)

def garbled : WatchEvent (Option (SiteConfig Unit)) := ⟨.text "/cdn/sites/a", some none, 2⟩

/-- A node that watched keeps the site, a node that starts afterwards has none. -/
theorem watch_fails :
    let order : WalkOrder Unit := .last []
    let watched := plainNode.watch (plainNode.loadAll order oneSite) [⟨[garbled], order⟩]
    let loaded := plainNode.loadAll order (oneSite.apply garbled)
    watched.sites.lookup "a".toList = some plainSite ∧ loaded.sites.lookup "a".toList = none ∧
      ¬ SameConfig watched loaded := by
  intro order watched loaded
  have hwatched : watched.sites.lookup "a".toList = some plainSite := by decide +kernel
  have hloaded : loaded.sites.lookup "a".toList = none := by decide +kernel
  refine ⟨hwatched, hloaded, fun hsame => ?_⟩
  have heq := hsame.sites "a".toList
  cases heq

end Manager

end Nozdormu.Config
