import Nozdormu.Config.Watch
import Nozdormu.Data.Runs

/-!
# Reloads beside the watch loop

`load_all` can be asked for at any time through the admin API, while the loop of `watch_once` goes
on. Both read, compute and store, and both move `last_revision`, in steps that interleave: a reload
notes its revision before it stores, the loop after it has stored (`reflected_of_exclusive`).
-/

namespace Nozdormu.Config

open Rust Data Manager List

variable {ρ ω : Type}

/-- What is put under a key, or none if it is deleted. -/
abbrev Change (ω : Type) := Key × Option ω

/-- The changes as events, the first of them with the revision after `start`. -/
def stamp : (start : Nat) → (changes : List (Change ω)) → List (WatchEvent ω)
  | _, [] => []
  | start, c :: changes => ⟨c.1, c.2, start + 1⟩ :: stamp (start + 1) changes

def contentOf (changes : List (Change ω)) : Content ω := (stamp 0 changes).foldl Content.apply ∅

structure Reload (ω : Type) where
  revision : Nat
  content : Content ω
  /-- whether `last_revision` has been moved -/
  revised : Bool := false

inductive WatchPhase (ρ ω : Type) where
  | idle
  /-- The live configuration is loaded, the events are at hand. -/
  | loaded (base : LiveConfig ρ) (events : List (WatchEvent ω))
  /-- It is stored, the revision is not noted yet. -/
  | stored (maxRevision : Nat)

structure Node (ρ ω : Type) where
  /-- all changes in etcd so far -/
  log : List (Change ω) := []
  live : LiveConfig ρ := ⟨∅, fun _ => none, fun _ => none⟩
  lastRevision : Nat := 0
  /-- how many of the changes the stream has delivered -/
  cursor : Nat := 0
  phase : WatchPhase ρ ω := .idle
  reloads : List (Reload ω) := []

inductive NodeEvent (ρ ω : Type) where
  | change (c : Change ω)
  /-- the three steps of a reload -/
  | read
  | revise (i : Nat)
  | store (i : Nat) (order : WalkOrder ρ)
  /-- the stream is opened behind `last_revision` -/
  | connect
  /-- the next response, of up to `n` events -/
  | receive (n : Nat)
  | apply (order : WalkOrder ρ)
  | note

namespace Node

variable (m : Manager ρ ω)

def step (s : Node ρ ω) : NodeEvent ρ ω → Node ρ ω
  | .change c => { s with log := s.log ++ [c] }
  | .read => { s with reloads := s.reloads ++ [⟨s.log.length, contentOf s.log, false⟩] }
  | .revise i =>
    match s.reloads[i]? with
    | some r =>
      { s with
        lastRevision := max s.lastRevision r.revision
        reloads := s.reloads.set i { r with revised := true } }
    | none => s
  | .store i order =>
    match s.reloads[i]? with
    | some r =>
      if r.revised then
        { s with live := m.loadAll order r.content, reloads := s.reloads.eraseIdx i }
      else s
    | none => s
  | .connect =>
    match s.phase with
    | .idle => { s with cursor := s.lastRevision }
    | _ => s
  | .receive n =>
    match s.phase with
    | .idle =>
      { s with
        cursor := min (s.cursor + n) s.log.length
        phase := .loaded s.live (stamp s.cursor ((s.log.drop s.cursor).take n)) }
    | _ => s
  | .apply order =>
    match s.phase with
    | .loaded base events =>
      let tally := m.tallyOf base.sites events
      { s with
        live := if tally.changed then config m.lower order tally.sites else s.live
        phase := .stored tally.maxRevision }
    | _ => s
  | .note =>
    match s.phase with
    | .stored maxRevision =>
      { s with lastRevision := max s.lastRevision maxRevision, phase := .idle }
    | _ => s

def run (events : List (NodeEvent ρ ω)) (s : Node ρ ω) : Node ρ ω := events.foldl (step m) s

end Node

/-! ## What a configuration reflects -/

/-- The values that the changes give a site; none at first. -/
def valuesOf (m : Manager ρ ω) (changes : List (Change ω)) (id : Str) : List (Option ω) :=
  none :: (changes.filter fun c => m.siteId c.1 = some id).map (·.2)

/-- The node has the last value of the site; if it cannot be read, the last one that can be read
will do as well. -/
def UpToDate (m : Manager ρ ω) (site : Option (SiteConfig ρ)) (values : List (Option ω)) : Prop :=
  site = m.accept (values.getLastD none) ∨ site = m.accept (m.lastReadable values)

def Reflects (m : Manager ρ ω) (live : LiveConfig ρ) (changes : List (Change ω)) : Prop :=
  ∀ id, UpToDate m (live.sites.lookup id) (valuesOf m changes id)

/-- With no reload in flight, the configuration reflects a state of etcd that is no older than
`last_revision`. -/
def Node.Reflected (m : Manager ρ ω) (s : Node ρ ω) : Prop :=
  s.reloads = [] → ∃ v, s.lastRevision ≤ v ∧ v ≤ s.log.length ∧ Reflects m s.live (s.log.take v)

/-- Reloads and batches take turns, and every batch reaches `last_revision`. -/
def Node.Exclusive (s : Node ρ ω) : NodeEvent ρ ω → Prop
  | .read => s.reloads = [] ∧ s.phase = .idle
  | .connect => s.reloads = []
  | .receive n => s.reloads = [] ∧ s.lastRevision ≤ s.cursor + n
  | _ => True

variable {m : Manager ρ ω} {site : Option (SiteConfig ρ)}

theorem UpToDate.next {values : List (Option ω)} (h : UpToDate m site values) (value : Option ω) :
    UpToDate m (m.next site value) (values ++ [value]) := by
  unfold UpToDate Manager.next
  rw [getLastD_concat, lastReadable_concat]
  cases hreadable : m.readable value with
  | true => exact .inl rfl
  | false =>
    simp only [Bool.false_eq_true, if_false, accept_of_not_readable hreadable]
    rcases h with hlast | hreadable'
    · cases hlastReadable : m.readable (values.getLastD none) with
      | true => exact .inr (hlast.trans (lastReadable_of_readable hlastReadable).symm)
      | false => exact .inl (hlast.trans (accept_of_not_readable hlastReadable))
    · exact .inr hreadable'

theorem UpToDate.foldl {values : List (Option ω)}
    (h : UpToDate m site values) (more : List (Option ω)) :
    UpToDate m (more.foldl m.next site) (values ++ more) := by
  induction more generalizing site values with
  | nil => rwa [append_nil]
  | cons value more ih =>
    have hrest := ih (h.next value)
    rwa [append_assoc] at hrest

theorem UpToDate.replay {values again : List (Option ω)} (h : UpToDate m site (values ++ again)) :
    UpToDate m (again.foldl m.next site) (values ++ again) := by
  have hfold : again.foldl m.next site = site ∨
      again.foldl m.next site = m.accept (m.lastReadable (values ++ again)) := by
    clear h
    induction again using List.reverseRecOn with
    | nil => exact .inl rfl
    | append_singleton again value ih =>
      rw [foldl_append, ← append_assoc, lastReadable_concat]
      show m.next (again.foldl m.next site) value = _ ∨ m.next (again.foldl m.next site) value = _
      unfold Manager.next
      split
      · exact .inr rfl
      · exact ih
  rcases hfold with hsame | hlast
  · rw [hsame]
    exact h
  · exact .inr hlast

/-! ## Events and changes -/

variable (sites : Sites ρ)

theorem lookup_tallyOf_stamp (start : Nat) (changes : List (Change ω)) (id : Str) :
    (m.tallyOf sites (stamp start changes)).sites.lookup id =
      ((changes.filter fun c => m.siteId c.1 = some id).map (·.2)).foldl m.next
      (sites.lookup id) := by
  unfold tallyOf
  generalize htally : ({ sites } : Tally ρ) = tally
  obtain rfl : tally.sites = sites := htally ▸ rfl
  clear htally
  induction changes generalizing start tally with
  | nil => rfl
  | cons c changes ih =>
    rw [stamp, foldl_cons, ih, lookup_noteEvent]
    by_cases hid : m.siteId c.1 = some id <;> simp [hid]

theorem valueOf_contentOf (changes : List (Change ω)) (id : Str) :
    m.valueOf (contentOf changes) id = (valuesOf m changes id).getLastD none := by
  have hhistory : ∀ (changes : List (Change ω)) start,
      (((stamp start changes).filter fun e => m.siteId e.key = some id).map (·.value)) =
        (changes.filter fun c => m.siteId c.1 = some id).map (·.2) := by
    intro changes
    induction changes with
    | nil => exact fun _ => rfl
    | cons c changes ih =>
      intro start
      by_cases hid : m.siteId c.1 = some id <;> simp [stamp, hid, ih]
  have hempty : m.valueOf ∅ id = none := by simp [valueOf]
  rw [contentOf, valueOf_foldl, history, hhistory, hempty]
  rfl

theorem valuesOf_append (changes more : List (Change ω)) (id : Str) :
    valuesOf m (changes ++ more) id =
      valuesOf m changes id ++ (more.filter fun c => m.siteId c.1 = some id).map (·.2) := by
  simp [valuesOf]

/-- No site changes between two revisions. -/
def Quiet (m : Manager ρ ω) (log : List (Change ω)) (a b : Nat) : Prop :=
  ∀ j c, a ≤ j → j < b → log[j]? = some c → m.siteId c.1 = none

variable {log : List (Change ω)}

theorem Quiet.mono {a a' b : Nat} (h : Quiet m log a b) (ha : a ≤ a') :
    Quiet m log a' b := fun j c hj => h j c (Nat.le_trans ha hj)

theorem take_split (log : List (Change ω)) {a b : Nat} (hab : a ≤ b) :
    log.take b = log.take a ++ (log.take b).drop a := by
  conv_lhs => rw [← take_append_drop a (log.take b), take_take, Nat.min_eq_left hab]

theorem reflects_iff_of_quiet {live : LiveConfig ρ} {a b : Nat} (hab : a ≤ b)
    (hquiet : Quiet m log a b) : Reflects m live (log.take a) ↔ Reflects m live (log.take b) := by
  refine forall_congr' fun id => ?_
  have hnone : ((log.take b).drop a).filter (fun c => m.siteId c.1 = some id) = [] := by
    refine filter_eq_nil_iff.2 fun c hc => ?_
    obtain ⟨j, hj⟩ := mem_iff_getElem?.1 hc
    rw [List.getElem?_drop, List.getElem?_take] at hj
    split at hj
    next hlt =>
      rw [hquiet (a + j) c (Nat.le_add_right a j) hlt hj]
      simp
    next => cases hj
  rw [take_split log hab, valuesOf_append, hnone]
  simp

theorem take_concat {v : Nat} (h : v ≤ log.length) (c : Change ω) :
    (log ++ [c]).take v = log.take v := take_append_of_le_length h

theorem Quiet.concat {a b : Nat} (h : Quiet m log a b) (hb : b ≤ log.length)
    (c : Change ω) : Quiet m (log ++ [c]) a b := by
  intro j c' ha hj hc'
  rw [List.getElem?_append_left (Nat.lt_of_lt_of_le hj hb)] at hc'
  exact h j c' ha hj hc'

theorem getElem?_stamp (start : Nat) (changes : List (Change ω)) (j : Nat) :
    (stamp start changes)[j]? = changes[j]?.map fun c => ⟨c.1, c.2, start + j + 1⟩ := by
  induction changes generalizing start j with
  | nil => rfl
  | cons c changes ih =>
    cases j with
    | zero => rfl
    | succ j =>
      rw [stamp, List.getElem?_cons_succ, List.getElem?_cons_succ, ih, Nat.add_right_comm start 1 j,
        Nat.add_assoc start j 1]

theorem maxRevision_tallyOf (events : List (WatchEvent ω)) :
    (∀ e ∈ events, (m.siteId e.key).isSome → e.revision ≤ (m.tallyOf sites events).maxRevision) ∧
      ∀ bound, (∀ e ∈ events, e.revision ≤ bound) →
      (m.tallyOf sites events).maxRevision ≤ bound := by
  induction events using List.reverseRecOn with
  | nil => exact ⟨nofun, fun bound _ => Nat.zero_le bound⟩
  | append_singleton events e ih =>
    have hconcat : (m.tallyOf sites (events ++ [e])).maxRevision =
        if (m.siteId e.key).isSome then max (m.tallyOf sites events).maxRevision e.revision
        else (m.tallyOf sites events).maxRevision := by
      rw [tallyOf, foldl_append]
      show (m.noteEvent (m.tallyOf sites events) e).maxRevision = _
      unfold noteEvent
      cases hid : m.siteId e.key with
      | none => rfl
      | some id =>
        dsimp only
        cases m.change id e.value (m.tallyOf sites events).sites <;> rfl
    rw [hconcat]
    constructor
    · intro e' he' hsite
      rcases mem_append.1 he' with hbefore | hlast
      · have hle := ih.1 e' hbefore hsite
        split <;> omega
      · obtain rfl := mem_singleton.1 hlast
        rw [if_pos hsite]
        exact Nat.le_max_right ..
    · intro bound hbound
      have hle := ih.2 bound fun e' he' => hbound e' (mem_append_left _ he')
      have hlast := hbound e (mem_append_right _ (mem_singleton.2 rfl))
      split <;> omega

/-! ## One step after the other -/

namespace Node

/-- Where a node can be if reloads and batches take turns. -/
inductive Stage (m : Manager ρ ω) (s : Node ρ ω) : Prop where
  | between (hphase : s.phase = .idle) (hreloads : s.reloads = [])
      (hlive : Reflects m s.live (s.log.take s.lastRevision))
        (hquiet : Quiet m s.log s.lastRevision s.cursor)
  | reloading (r : Reload ω) (hphase : s.phase = .idle) (hreloads : s.reloads = [r])
      (hcontent : r.content = contentOf (s.log.take r.revision)) (hread : r.revision ≤ s.log.length)
      (hle : s.lastRevision ≤ r.revision)
        (hrevised : r.revised = true → s.lastRevision = r.revision)
      (hquiet : Quiet m s.log s.lastRevision s.cursor)
  | loaded (start : Nat) (hphase : s.phase = .loaded s.live
      (stamp start ((s.log.take s.cursor).drop start)))
      (hreloads : s.reloads = []) (hstart : start ≤ s.cursor) (hle : s.lastRevision ≤ s.cursor)
      (hlive : Reflects m s.live (s.log.take s.lastRevision))
        (hquiet : Quiet m s.log s.lastRevision start)
  | stored (maxRevision : Nat) (hphase : s.phase = .stored maxRevision) (hreloads : s.reloads = [])
      (hlive : Reflects m s.live (s.log.take s.cursor)) (hle : s.lastRevision ≤ s.cursor)
      (hmax : maxRevision ≤ s.cursor)
        (hquiet : Quiet m s.log (max s.lastRevision maxRevision) s.cursor)

/-- Besides, nothing is ahead of etcd. -/
structure Orderly (m : Manager ρ ω) (s : Node ρ ω) : Prop where
  lastRevision : s.lastRevision ≤ s.log.length
  cursor : s.cursor ≤ s.log.length
  stage : Stage m s

variable {s : Node ρ ω}

section

variable (h : s.Orderly m)
include h

theorem Orderly.reflected : s.Reflected m := by
  intro hnone
  cases h.stage with
  | reloading r _ hreloads =>
    rw [hreloads] at hnone
    cases hnone
  | between _ _ hlive | loaded _ _ _ _ _ hlive => exact ⟨_, Nat.le_refl _, h.lastRevision, hlive⟩
  | stored _ _ _ hlive hle _ _ => exact ⟨_, hle, h.cursor, hlive⟩

theorem Orderly.change (c : Change ω) : (s.step m (.change c)).Orderly m := by
  have hlength : s.log.length ≤ (s.log ++ [c]).length := by simp
  refine ⟨Nat.le_trans h.lastRevision hlength, Nat.le_trans h.cursor hlength, ?_⟩
  cases h.stage with
  | between hphase hreloads hlive hquiet =>
    refine .between hphase hreloads ?_ (hquiet.concat h.cursor c)
    show Reflects m s.live ((s.log ++ [c]).take s.lastRevision)
    rwa [take_concat h.lastRevision]
  | reloading r hphase hreloads hcontent hread hle hrevised hquiet =>
    refine .reloading r hphase hreloads ?_ (Nat.le_trans hread hlength) hle hrevised
      (hquiet.concat h.cursor c)
    show r.content = contentOf ((s.log ++ [c]).take r.revision)
    rwa [take_concat hread]
  | loaded start hphase hreloads hstart hle hlive hquiet =>
    refine .loaded start ?_ hreloads hstart hle ?_ (hquiet.concat (Nat.le_trans hstart h.cursor) c)
    · show s.phase = .loaded s.live (stamp start (((s.log ++ [c]).take s.cursor).drop start))
      rwa [take_concat h.cursor]
    · show Reflects m s.live ((s.log ++ [c]).take s.lastRevision)
      rwa [take_concat h.lastRevision]
  | stored maxRevision hphase hreloads hlive hle hmax hquiet =>
    refine .stored maxRevision hphase hreloads ?_ hle hmax (hquiet.concat h.cursor c)
    show Reflects m s.live ((s.log ++ [c]).take s.cursor)
    rwa [take_concat h.cursor]

theorem Orderly.of_idle (hphase : s.phase = .idle) (hreloads : s.reloads = []) :
    Reflects m s.live (s.log.take s.lastRevision) ∧ Quiet m s.log s.lastRevision s.cursor := by
  cases h.stage with
  | between _ _ hlive hquiet => exact ⟨hlive, hquiet⟩
  | reloading _ _ hone =>
    rw [hreloads] at hone
    cases hone
  | loaded _ hother | stored _ hother =>
    rw [hphase] at hother
    cases hother

theorem Orderly.of_reload {i : Nat} {r : Reload ω} (hr : s.reloads[i]? = some r) :
    i = 0 ∧ s.reloads = [r] ∧ s.phase = .idle ∧ r.content = contentOf (s.log.take r.revision) ∧
      r.revision ≤ s.log.length ∧ s.lastRevision ≤ r.revision ∧
      (r.revised = true → s.lastRevision = r.revision) ∧ Quiet m s.log s.lastRevision s.cursor := by
  have hin : ∀ {reloads : List (Reload ω)}, s.reloads = reloads → r ∈ reloads :=
    fun heq => heq ▸ mem_of_getElem? hr
  cases h.stage with
  | between _ hreloads | loaded _ _ hreloads | stored _ _ hreloads =>
    exact absurd (hin hreloads) not_mem_nil
  | reloading r' hphase hreloads hcontent hread hle hrevised hquiet =>
    obtain rfl := mem_singleton.1 (hin hreloads)
    obtain ⟨hlt, -⟩ := List.getElem?_eq_some_iff.1 hr
    rw [hreloads] at hlt
    exact ⟨by simpa using hlt, hreloads, hphase, hcontent, hread, hle, hrevised, hquiet⟩

theorem Orderly.read (hturn : s.Exclusive .read) : (s.step m .read).Orderly m := by
  obtain ⟨hreloads, hphase⟩ := hturn
  obtain ⟨-, hquiet⟩ := h.of_idle hphase hreloads
  refine ⟨h.lastRevision, h.cursor, .reloading ⟨s.log.length, contentOf s.log, false⟩ hphase ?_ ?_
    (Nat.le_refl _) h.lastRevision nofun hquiet⟩
  · show s.reloads ++ _ = _
    rw [hreloads]
    rfl
  · show contentOf s.log = contentOf (s.log.take s.log.length)
    rw [take_length]

theorem Orderly.revise (i : Nat) : (s.step m (.revise i)).Orderly m := by
  unfold step
  dsimp only
  cases hr : s.reloads[i]? with
  | none => exact h
  | some r =>
    obtain ⟨rfl, hreloads, hphase, hcontent, hread, hle, hrevised, hquiet⟩ := h.of_reload hr
    have hmax : max s.lastRevision r.revision = r.revision := Nat.max_eq_right hle
    refine ⟨?_, h.cursor, .reloading { r with revised := true } hphase ?_ hcontent hread ?_ ?_ ?_⟩
    · show max s.lastRevision r.revision ≤ _
      rwa [hmax]
    · rw [hreloads]
      rfl
    · exact Nat.le_of_eq hmax
    · exact fun _ => hmax
    · exact hquiet.mono (Nat.le_max_left ..)

theorem Orderly.store (i : Nat) (order : WalkOrder ρ) : (s.step m (.store i order)).Orderly m := by
  unfold step
  dsimp only
  cases hr : s.reloads[i]? with
  | none => exact h
  | some r =>
    dsimp only
    split
    next hdone =>
      obtain ⟨rfl, hreloads, hphase, hcontent, -, -, hrevised, hquiet⟩ := h.of_reload hr
      refine ⟨h.lastRevision, h.cursor, .between hphase ?_ ?_ hquiet⟩
      · rw [hreloads]
        rfl
      · rw [hcontent, hrevised hdone]
        -- a reload reflects what it read
        intro id
        refine .inl ?_
        show (m.loadSites (contentOf _)).lookup id = _
        rw [lookup_loadSites, valueOf_contentOf]
    next => exact h

theorem Orderly.connect (hturn : s.Exclusive .connect) : (s.step m .connect).Orderly m := by
  unfold step
  dsimp only
  split
  next hphase =>
    obtain ⟨hlive, -⟩ := h.of_idle hphase hturn
    refine ⟨h.lastRevision, h.lastRevision, .between hphase hturn hlive ?_⟩
    intro j c hle hlt
    exact absurd hle (Nat.not_le_of_lt hlt)
  next => exact h

theorem Orderly.receive {n : Nat} (hturn : s.Exclusive (.receive n)) :
    (s.step m (.receive n)).Orderly m := by
  obtain ⟨hreloads, hreaches⟩ := hturn
  unfold step
  dsimp only
  split
  next hphase =>
    obtain ⟨hlive, hquiet⟩ := h.of_idle hphase hreloads
    have hcursor := h.cursor
    have hlast := h.lastRevision
    refine ⟨hlast, Nat.min_le_right .., .loaded s.cursor ?_ hreloads ?_ ?_ hlive hquiet⟩
    · -- the events are those up to the new cursor
      rw [take_drop, ← take_take, take_length]
    · show s.cursor ≤ min (s.cursor + n) s.log.length
      omega
    · show s.lastRevision ≤ min (s.cursor + n) s.log.length
      omega
  next => exact h

end

theorem reflects_batch {live live' : LiveConfig ρ} {start d c : Nat}
    (hstart : start ≤ d) (hd : d ≤ c) (h : Reflects m live (log.take d))
    (hlive' : live'.sites = (m.tallyOf live.sites (stamp start ((log.take c).drop start))).sites) :
    Reflects m live' (log.take c) := by
  -- the batch begins with changes that the configuration has already
  have hdrop : (log.take c).drop start = (log.take d).drop start ++ (log.take c).drop d := by
    by_cases hlong : d ≤ log.length
    · conv_lhs => rw [take_split log hd]
      exact drop_append_of_le_length (by rw [length_take, Nat.min_eq_left hlong]; exact hstart)
    · have hshort : log.length ≤ d := Nat.le_of_not_le hlong
      rw [take_of_length_le hshort, take_of_length_le (Nat.le_trans hshort hd),
        drop_of_length_le hshort, append_nil]
  rw [take_split log hstart] at h
  rw [hdrop] at hlive'
  rw [take_split log (Nat.le_trans hstart hd), hdrop]
  intro id
  rw [hlive', lookup_tallyOf_stamp, valuesOf_append]
  have hagain := h id
  rw [valuesOf_append] at hagain
  rw [filter_append, map_append, foldl_append, ← append_assoc]
  exact hagain.replay.foldl _

theorem quiet_tallyOf {start c a : Nat}
    (hmax : (m.tallyOf sites (stamp start ((log.take c).drop start))).maxRevision ≤ a)
    (hbefore : Quiet m log a start) : Quiet m log a c := by
  intro j change hj hlt hchange
  by_cases hstart : j < start
  · exact hbefore j change hj hstart hchange
  have hmem : (⟨change.1, change.2, j + 1⟩ : WatchEvent ω) ∈ stamp start
      ((log.take c).drop start) := by
    refine mem_iff_getElem?.2 ⟨j - start, ?_⟩
    rw [getElem?_stamp, List.getElem?_drop, Nat.add_sub_cancel' (Nat.le_of_not_lt hstart),
      List.getElem?_take_of_lt hlt, hchange]
    rfl
  by_contra hsite
  have hle : j + 1 ≤ _ := (maxRevision_tallyOf sites _).1 _ hmem (Option.isSome_iff_ne_none.2 hsite)
  omega

theorem maxRevision_le (log : List (Change ω)) (start c : Nat) :
    (m.tallyOf sites (stamp start ((log.take c).drop start))).maxRevision ≤ c := by
  refine (maxRevision_tallyOf sites _).2 c fun e he => ?_
  obtain ⟨j, hj⟩ := mem_iff_getElem?.1 he
  rw [getElem?_stamp] at hj
  obtain ⟨change, hchange, rfl⟩ := Option.map_eq_some_iff.1 hj
  obtain ⟨hlt, -⟩ := List.getElem?_eq_some_iff.1 hchange
  rw [length_drop, length_take] at hlt
  show start + j + 1 ≤ c
  omega

theorem Orderly.apply (h : s.Orderly m) (order : WalkOrder ρ) :
    (s.step m (.apply order)).Orderly m := by
  unfold step
  dsimp only
  split
  next base events hphase =>
    cases h.stage with
    | between hother | reloading _ hother | stored _ hother =>
      rw [hphase] at hother
      cases hother
    | loaded start hloaded hreloads hstart hle hlive hquiet =>
      rw [hphase] at hloaded
      cases hloaded
      refine ⟨h.lastRevision, h.cursor, .stored _ rfl hreloads ?_ hle (maxRevision_le ..)
          (quiet_tallyOf s.live.sites (Nat.le_max_right ..) (hquiet.mono (Nat.le_max_left ..)))⟩
      -- the stream may be ahead of `last_revision`, but then no site has changed in between
      have hlater : Reflects m s.live (s.log.take (max start s.lastRevision)) := by
        by_cases hbehind : start ≤ s.lastRevision
        · rwa [Nat.max_eq_right hbehind]
        · have hahead := Nat.le_of_not_le hbehind
          rw [Nat.max_eq_left hahead]
          exact (reflects_iff_of_quiet hahead hquiet).1 hlive
      refine reflects_batch (Nat.le_max_left ..) (Nat.max_le.2 ⟨hstart, hle⟩) hlater ?_
      exact sites_watchOnce s.live ⟨_, order⟩
  next => exact h

theorem Orderly.note (h : s.Orderly m) : (s.step m .note).Orderly m := by
  unfold step
  dsimp only
  split
  next maxRevision hphase =>
    cases h.stage with
    | between hother | reloading _ hother | loaded _ hother =>
      rw [hphase] at hother
      cases hother
    | stored _ hstored hreloads hlive hle hmax hquiet =>
      rw [hphase] at hstored
      cases hstored
      have hbelow : max s.lastRevision maxRevision ≤ s.cursor := Nat.max_le.2 ⟨hle, hmax⟩
      exact ⟨Nat.le_trans hbelow h.cursor, h.cursor,
        .between rfl hreloads ((reflects_iff_of_quiet hbelow hquiet).2 hlive) hquiet⟩
  next => exact h

theorem Orderly.step (h : s.Orderly m) {e : NodeEvent ρ ω} (hturn : s.Exclusive e) :
    (s.step m e).Orderly m := by
  cases e with
  | change c => exact h.change c
  | read => exact h.read hturn
  | revise i => exact h.revise i
  | store i order => exact h.store i order
  | connect => exact h.connect hturn
  | receive n => exact h.receive hturn
  | apply order => exact h.apply order
  | note => exact h.note

theorem orderly_start : ({} : Node ρ ω).Orderly m := by
  refine ⟨Nat.le_refl _, Nat.le_refl _, .between rfl rfl ?_ ?_⟩
  · intro id
    refine .inl ?_
    rfl
  · exact fun j c _ hlt => absurd hlt (Nat.not_lt_zero j)

/-- In a run in which reloads and batches take turns, and every batch reaches `last_revision`, the
configuration keeps up with `last_revision`. -/
theorem reflected_of_exclusive (m : Manager ρ ω) (events : List (NodeEvent ρ ω))
    (h : ∀ pre e, pre ++ [e] <+: events → (run m pre {}).Exclusive e) :
    ∀ pre, pre <+: events → (run m pre {}).Reflected m := by
  intro pre hpre
  have horderly : (run m pre {}).Orderly m :=
    forall_prefix_of_allowed (fun s e hs hturn => hs.step hturn) orderly_start h pre hpre
  exact horderly.reflected

def changed (site : SiteConfig Unit) : NodeEvent Unit (Option (SiteConfig Unit)) :=
  .change (.text "/cdn/sites/a", some (some site))

def disabledSite : SiteConfig Unit := { plainSite with enabled := false }

/-- A reload, then a batch. -/
theorem reflected_of_exclusive_turns :
    (run Manager.plainNode [changed Manager.plainSite, .read, .revise 0, .store 0 (.last []),
      changed disabledSite, .connect, .receive 1, .apply (.last []), .note] {}).Reflected
      Manager.plainNode := by
  refine reflected_of_exclusive _ _ ?_ _ (prefix_refl _)
  simp only [run, allowed_cons]
  refine ⟨trivial, ⟨rfl, rfl⟩, trivial, trivial, trivial, rfl, ⟨rfl, ?_⟩, trivial,
    trivial, allowed_nil _⟩
  decide

/-- A reload reads the site as it was before a change, and stores it after the loop has stored and
noted the change. -/
theorem reflected_fails :
    let s := run Manager.plainNode [changed Manager.plainSite, .read, .revise 0,
      changed disabledSite, .connect, .receive 1, .apply (.last []), .note, .store 0 (.last [])] {}
    s.lastRevision = 2 ∧ s.log.length = 2 ∧ s.reloads = [] ∧
      s.live.sites.lookup "a".toList = some plainSite ∧ ¬ s.Reflected plainNode := by
  intro s
  have hrevision : s.lastRevision = 2 := by decide +kernel
  have hlength : s.log.length = 2 := by decide +kernel
  have hsite : s.live.sites.lookup "a".toList = some plainSite := by decide +kernel
  refine ⟨hrevision, hlength, rfl, hsite, fun h => ?_⟩
  obtain ⟨v, hle, hlog, hlive⟩ := h rfl
  have hv : v = 2 := by omega
  subst hv
  rcases hlive "a".toList with heq | heq
  · exact absurd (hsite.symm.trans heq) (by decide +kernel)
  · exact absurd (hsite.symm.trans heq) (by decide +kernel)

end Node

end Nozdormu.Config
