import Mathlib.Data.List.Nodup
import Nozdormu.Config.History
import Nozdormu.Data.Runs

/-!
# Version numbers and pruning

The transaction makes the counter of a site go up by one with every snapshot that is written, so the
versions of a site are 1, 2, 3 and so on, each written once (`Numbered`), whatever fails. A call
that returns a version has written it, and no other call has (`Traced`). What is stored are the
versions that no deletion has reached (`Kept`).
-/

namespace Nozdormu.Config.History

open Rust Data Function List

variable {ι ω κ : Type} {etcdPrefix : Str} {s s' : History ι κ} {c : ι}
  {call : SaveCall κ} {reply : Reply}
  {version : Nat} {phase : SavePhase}

-- the sites that are saved, and what may be if requests fail
variable {Saved : Str → Prop} {Lossy : Prop}

def versionsOf (s : History ι κ) (x : Str) : List Nat :=
  (s.written.filter fun p => p.2.siteId = x).map (·.2.version)

/-! ## Transactions and deletions -/

variable (snapshot : Snapshot κ) (x : Str)

theorem versionsOf_commit : (s.commit etcdPrefix c snapshot).versionsOf x =
      if snapshot.siteId = x then s.versionsOf x ++ [snapshot.version] else s.versionsOf x := by
  unfold versionsOf commit
  split
  next heq => simp [heq]
  next hne => simp [hne]

theorem store_commit_metaKey : (s.commit etcdPrefix c snapshot).store (metaKey etcdPrefix x) =
      if snapshot.siteId = x then some (.latest snapshot.version, s.revision + 1)
      else s.store (metaKey etcdPrefix x) := by
  unfold commit
  dsimp only
  rw [update_of_ne metaKey_ne_versionKey, update_apply]
  simp only [metaKey_inj, eq_comm]

theorem mem_versionsOf_iff {x : Str} : version ∈ s.versionsOf x ↔
    ∃ p ∈ s.written, p.2.siteId = x ∧ p.2.version = version := by
  simp [versionsOf, and_assoc]

theorem getVersion_prune (y : Str) (u : Nat) (x : Str) (version : Nat) :
    (s.pruneOldVersions etcdPrefix y u).getVersion etcdPrefix x version =
      if InRange etcdPrefix y (u - maxVersionsPerSite) (versionKey etcdPrefix x version) then none
      else s.getVersion etcdPrefix x version := by
  unfold getVersion pruneOldVersions
  dsimp only
  by_cases hrange : InRange etcdPrefix y (u - maxVersionsPerSite) (versionKey etcdPrefix x version)
  · rw [if_pos hrange, if_pos hrange]
  · rw [if_neg hrange, if_neg hrange]

/-- No site that is saved has a name that goes on like the versions of another. -/
def Separate (Saved : Str → Prop) : Prop := ∀ x y, Saved x → Saved y → ¬ x ++ "/v/".toList <+: y

/-- The counter of each site counts its versions, and a transaction that succeeds writes the next
one. -/
structure Numbered (etcdPrefix : Str) (Saved : Str → Prop) (s : History ι κ) : Prop where
  sites : ∀ c call, s.calls c = some call → Saved call.siteId
  counter : ∀ x, Saved x → (s.store (metaKey etcdPrefix x)).map (·.1) =
    if s.versionsOf x = [] then none else some (.latest (s.versionsOf x).length)
  revisions : ∀ key entry, s.store key = some entry → entry.2 ≤ s.revision
  versions : ∀ x, Saved x → s.versionsOf x = List.range' 1 (s.versionsOf x).length
  expected : ∀ c call attempt version expected, s.calls c = some call →
    call.phase = .writing attempt version expected → (∀ r ∈ expected, r ≤ s.revision) ∧
      ((s.store (metaKey etcdPrefix call.siteId)).map (·.2) = expected →
        version = (s.versionsOf call.siteId).length + 1)

namespace Numbered

variable (h : Numbered etcdPrefix Saved s)
include h

theorem nextVersion_eq {x : Str} (hx : Saved x) : s.nextVersion etcdPrefix x =
      some ((s.versionsOf x).length + 1, (s.store (metaKey etcdPrefix x)).map (·.2)) := by
  have hcounter := h.counter x hx
  unfold nextVersion
  cases hstore : s.store (metaKey etcdPrefix x) with
  | none =>
    rw [hstore] at hcounter
    have hnil : s.versionsOf x = [] := by
      by_contra hne
      rw [if_neg hne] at hcounter
      cases hcounter
    rw [hnil]
    rfl
  | some entry =>
    obtain ⟨value, revision⟩ := entry
    rw [hstore] at hcounter
    by_cases hnil : s.versionsOf x = []
    · rw [if_pos hnil] at hcounter
      cases hcounter
    · rw [if_neg hnil] at hcounter
      obtain rfl : value = .latest (s.versionsOf x).length := Option.some.inj hcounter
      rfl

theorem commit {snapshot : Snapshot κ}
    (hversion : snapshot.version = (s.versionsOf snapshot.siteId).length + 1) :
    Numbered etcdPrefix Saved (s.commit etcdPrefix c snapshot) where
  sites := h.sites
  counter x hx := by
    rw [store_commit_metaKey, versionsOf_commit]
    split
    next heq =>
      rw [if_neg (by simp), length_append, ← heq, hversion]
      rfl
    next => exact h.counter x hx
  revisions key entry hentry := by
    rw [History.commit] at hentry ⊢
    dsimp only at hentry ⊢
    rw [update_apply, update_apply] at hentry
    split at hentry
    · rw [← Option.some.inj hentry]
    split at hentry
    · rw [← Option.some.inj hentry]
    · exact Nat.le_succ_of_le (h.revisions key entry hentry)
  versions x hx := by
    rw [versionsOf_commit]
    split
    next heq =>
      rw [length_append, length_singleton, List.range'_1_concat, ← h.versions x hx, hversion, heq,
        Nat.add_comm]
    next => exact h.versions x hx
  expected c' call' attempt version expected hcall' hwriting := by
    obtain ⟨hold, hnext⟩ := h.expected c' call' attempt version expected hcall' hwriting
    refine ⟨fun r hr => Nat.le_succ_of_le (hold r hr), ?_⟩
    rw [store_commit_metaKey, versionsOf_commit]
    split
    · -- the counter has a new revision, which nobody expects
      intro hcompare
      exact absurd (hold _ hcompare.symm) (Nat.not_succ_le_self _)
    · exact hnext

theorem prune (hseparate : Separate Saved) {x : Str} (hx : Saved x)
    (version : Nat) : Numbered etcdPrefix Saved (s.pruneOldVersions etcdPrefix x version) := by
  have hmeta : ∀ y, Saved y → (s.pruneOldVersions etcdPrefix x version).store
      (metaKey etcdPrefix y) =
      s.store (metaKey etcdPrefix y) :=
    fun y hy => if_neg (not_inRange_metaKey (hseparate x y hx hy))
  refine ⟨h.sites, fun y hy => ?_, fun key entry hentry => ?_, h.versions, ?_⟩
  · rw [hmeta y hy]
    exact h.counter y hy
  · unfold pruneOldVersions at hentry
    dsimp only at hentry
    split at hentry
    · cases hentry
    · exact h.revisions key entry hentry
  · intro c' call' attempt version' expected hcall' hwriting
    rw [hmeta call'.siteId (h.sites c' call' hcall')]
    exact h.expected c' call' attempt version' expected hcall' hwriting

end Numbered

/-! ## Who has which version -/

/-- Snapshots and the calls that have written them. -/
structure Traced (Lossy : Prop) (s : History ι κ) : Prop where
  writer : ∀ p ∈ s.written, ∃ call, s.calls p.1 = some call ∧ p.2 = call.snapshotAt p.2.version ∧
    (call.phase = .pruning p.2.version ∨ call.phase = .returned (some p.2.version) ∨
      Lossy ∧ call.phase = .returned none)
  handed : ∀ c call version, s.calls c = some call →
    call.phase = .pruning version ∨ call.phase = .returned (some version) →
    (c, call.snapshotAt version) ∈ s.written
  pruned : ∀ c call version, s.calls c = some call → call.phase = .returned (some version) →
    version ≤ maxVersionsPerSite ∨ (call.siteId, version) ∈ s.pruned ∨ Lossy
  once : (s.written.map Prod.fst).Nodup

namespace Traced

variable (h : Traced Lossy s)
include h

theorem not_written (hcall : s.calls c = some call)
    (hphase : (∃ attempt, call.phase = .reading attempt) ∨
      ∃ attempt version expected, call.phase = .writing attempt version expected) :
    ∀ p ∈ s.written, p.1 ≠ c := by
  rintro p hp rfl
  obtain ⟨call', hcall', -, hwritten⟩ := h.writer p hp
  rw [hcall] at hcall'
  cases hcall'
  rcases hphase with ⟨attempt, hphase⟩ | ⟨attempt, version, expected, hphase⟩ <;>
    rw [hphase] at hwritten <;> rcases hwritten with hwritten | hwritten | ⟨-, hwritten⟩
      <;> cases hwritten

theorem prune (x : Str) (version : Nat) :
    Traced Lossy (s.pruneOldVersions etcdPrefix x version) where
  writer := h.writer
  handed := h.handed
  pruned c' call' version' hcall' hphase :=
    (h.pruned c' call' version' hcall' hphase).imp_right (Or.imp_left (mem_append_left _))
  once := h.once

end Traced

/-! ## What is stored -/

/-- The versions that no deletion has reached are stored, as they were written. -/
structure Kept (etcdPrefix : Str) (Saved : Str → Prop) (s : History ι κ) : Prop where
  stored : (∀ p ∈ s.written, p.2.version < 10 ^ 10) → ∀ x version snapshot, Saved x →
    (s.getVersion etcdPrefix x version = some snapshot ↔
      ((∃ c, (c, snapshot) ∈ s.written) ∧ snapshot.siteId = x ∧ snapshot.version = version) ∧
      ∀ u, (x, u) ∈ s.pruned → u < version + maxVersionsPerSite)
  pruned : ∀ x u, (x, u) ∈ s.pruned → u ∈ s.versionsOf x

namespace Kept

variable (h : Kept etcdPrefix Saved s)
include h

theorem commit {snapshot : Snapshot κ}
    (hnew : ∀ u ∈ s.versionsOf snapshot.siteId, u < snapshot.version) :
    Kept etcdPrefix Saved (s.commit etcdPrefix c snapshot) where
  stored hbound x version snapshot' hx := by
    have hbefore := h.stored (fun p hp => hbound p (mem_append_left _ hp)) x version snapshot' hx
    have hstore : (s.commit etcdPrefix c snapshot).store (versionKey etcdPrefix x version) =
        if snapshot.siteId = x ∧ snapshot.version = version then some
          (.snapshot snapshot, s.revision + 1)
        else s.store (versionKey etcdPrefix x version) := by
      unfold History.commit
      dsimp only
      rw [update_apply, update_of_ne (Ne.symm metaKey_ne_versionKey)]
      simp only [versionKey_inj, eq_comm]
    unfold getVersion at hbefore ⊢
    rw [hstore]
    by_cases heq : snapshot.siteId = x ∧ snapshot.version = version
    · obtain ⟨rfl, rfl⟩ := heq
      rw [if_pos ⟨rfl, rfl⟩]
      constructor
      · intro hsnapshot
        cases hsnapshot
        refine ⟨⟨⟨c, mem_append_cons_self⟩, rfl, rfl⟩, fun u hu => ?_⟩
        exact Nat.lt_add_right _ (hnew u (h.pruned _ u hu))
      rintro ⟨⟨⟨c', hmem⟩, hsite, hversion⟩, -⟩
      rcases mem_append.1 hmem with hold | hlast
      · -- an older snapshot has a smaller version
        have hlt := hnew snapshot'.version (mem_versionsOf_iff.2 ⟨_, hold, hsite, rfl⟩)
        exact absurd hversion (Nat.ne_of_lt hlt)
      · rw [(Prod.mk.inj (mem_singleton.1 hlast)).2]
    · rw [if_neg heq]
      refine hbefore.trans (and_congr_left' (and_congr_left fun hsame => ?_))
      refine exists_congr fun c' => ⟨mem_append_left _, fun hmem => ?_⟩
      refine (mem_append.1 hmem).resolve_right fun hlast => heq ?_
      rw [← (Prod.mk.inj (mem_singleton.1 hlast)).2]
      exact hsame
  pruned x u hu := by
    rw [versionsOf_commit]
    split
    · exact mem_append_left _ (h.pruned x u hu)
    · exact h.pruned x u hu

theorem getVersion_prune_self (hbound : ∀ p ∈ s.written, p.2.version < 10 ^ 10)
    {y : Str} (hy : Saved y) {u : Nat} (hversions : ∀ v ∈ s.versionsOf y, 1 ≤ v)
    (hu : u ∈ s.versionsOf y) (version : Nat) (snapshot : Snapshot κ) :
    (s.pruneOldVersions etcdPrefix y u).getVersion etcdPrefix y version = some snapshot ↔
      s.getVersion etcdPrefix y version = some snapshot ∧ u < version + maxVersionsPerSite := by
  rw [getVersion_prune, Option.ite_none_left_eq_some, and_comm]
  refine and_congr_right fun hstored => ?_
  obtain ⟨⟨⟨c, hmem⟩, hsite, hversion⟩, -⟩ := (h.stored hbound y version snapshot hy).1 hstored
  obtain ⟨p, hp, -, hlast⟩ := mem_versionsOf_iff.1 hu
  have hpos : 1 ≤ version := hversions version (mem_versionsOf_iff.2 ⟨_, hmem, hsite, hversion⟩)
  have hlt : version < 10 ^ 10 := hversion ▸ hbound _ hmem
  have hcutoff : u - maxVersionsPerSite + 1 < 10 ^ 10 := by
    have hlt := hbound p hp
    unfold maxVersionsPerSite
    omega
  rw [inRange_versionKey_iff hlt hcutoff]
  omega

theorem prune (hseparate : Separate Saved) {y : Str} (hy : Saved y) {u : Nat}
    (hversions : ∀ v ∈ s.versionsOf y, 1 ≤ v) (hu : u ∈ s.versionsOf y) :
    Kept etcdPrefix Saved (s.pruneOldVersions etcdPrefix y u) where
  stored hbound x version snapshot hx := by
    have hpruned : (s.pruneOldVersions etcdPrefix y u).pruned = s.pruned ++ [(y, u)] := rfl
    rw [hpruned]
    by_cases heq : y = x
    · subst heq
      rw [h.getVersion_prune_self hbound hy hversions hu,
        h.stored hbound y version snapshot hy, and_assoc]
      refine and_congr_right' ?_
      simp [or_imp, forall_and]
    · rw [getVersion_prune, if_neg (not_inRange_versionKey (hseparate y x hy hx) heq),
        h.stored hbound x version snapshot hx]
      refine and_congr_right' ?_
      simp [Ne.symm heq]
  pruned x u' hmem := by
    rcases mem_append.1 hmem with hold | hlast
    · exact h.pruned x u' hold
    · obtain ⟨rfl, rfl⟩ := Prod.mk.inj (mem_singleton.1 hlast)
      exact hu

end Kept

structure Sound (etcdPrefix : Str) (Saved : Str → Prop) (Lossy : Prop) (s : History ι κ) :
    Prop where
  numbered : Numbered etcdPrefix Saved s
  traced : Traced Lossy s
  kept : Kept etcdPrefix Saved s

theorem sound_start : Sound etcdPrefix Saved Lossy ({} : History ι κ) := by
  refine ⟨⟨nofun, fun _ _ => rfl, nofun, fun _ _ => rfl, nofun⟩,
    ⟨nofun, nofun, nofun, nodup_nil⟩, ⟨?_, nofun⟩⟩
  intro _ x version snapshot _
  exact iff_of_false nofun (fun h => by obtain ⟨⟨⟨c, hmem⟩, -⟩, -⟩ := h; cases hmem)

/-- The call has returned the version. -/
def HandedOut (s : History ι κ) (x : Str) (c : ι) (version : Nat) : Prop :=
  ∃ call, s.calls c = some call ∧ call.siteId = x ∧ call.phase = .returned (some version)

def AtRest (s : History ι κ) : Prop := ∀ c call, s.calls c = some call → ∃ result,
    call.phase = .returned result

section

variable {x : Str} (h : Sound etcdPrefix Saved Lossy s)
include h

theorem Sound.mem_of_handedOut
    (hout : HandedOut s x c version) : ∃ p ∈ s.written, p.1 = c ∧ p.2.siteId = x ∧
      p.2.version = version := by
  obtain ⟨call, hcall, rfl, hphase⟩ := hout
  exact ⟨_, h.traced.handed c call version hcall (.inr hphase), rfl, rfl, rfl⟩

theorem Sound.handedOut_of_mem (hlossless : ¬ Lossy) (hrest : AtRest s)
    (hmem : version ∈ s.versionsOf x) : ∃ c, HandedOut s x c version := by
  obtain ⟨p, hp, rfl, rfl⟩ := mem_versionsOf_iff.1 hmem
  obtain ⟨call, hcall, hsnapshot, hphase⟩ := h.traced.writer p hp
  obtain ⟨result, hresult⟩ := hrest p.1 call hcall
  refine ⟨p.1, call, hcall, (congrArg Snapshot.siteId hsnapshot).symm, ?_⟩
  rcases hphase with hphase | hphase | ⟨hlossy, -⟩
  · rw [hresult] at hphase
    cases hphase
  · exact hphase
  · exact absurd hlossy hlossless

theorem Sound.stored_iff (hx : Saved x) (hlossless : ¬ Lossy)
    (hrest : AtRest s) (hbound : ∀ p ∈ s.written, p.2.version < 10 ^ 10) (version : Nat) :
    (s.getVersion etcdPrefix x version).isSome = true ↔
      version ∈ s.versionsOf x ∧ (s.versionsOf x).length < version + maxVersionsPerSite := by
  have hversions : ∀ u, u ∈ s.versionsOf x ↔ 1 ≤ u ∧ u ≤ (s.versionsOf x).length := by
    intro u
    have hrange := h.numbered.versions x hx
    generalize (s.versionsOf x).length = n at hrange ⊢
    rw [hrange, mem_range'_1]
    omega
  have hpruned : version ∈ s.versionsOf x →
      ((∀ u, (x, u) ∈ s.pruned → u < version + maxVersionsPerSite) ↔
      (s.versionsOf x).length < version + maxVersionsPerSite) := by
    intro hmem
    have hrange := (hversions version).1 hmem
    constructor
    · -- the call that has written the last version has deleted, if there was need to
      intro hkept
      have hlast : (s.versionsOf x).length ∈ s.versionsOf x :=
        (hversions _).2 ⟨by omega, Nat.le_refl _⟩
      obtain ⟨c, call, hcall, rfl, hphase⟩ := h.handedOut_of_mem hlossless hrest hlast
      rcases h.traced.pruned c call _ hcall hphase with hle | hdone | hlossy
      · omega
      · exact hkept _ hdone
      · exact absurd hlossy hlossless
    · intro hlast u hu
      exact Nat.lt_of_le_of_lt ((hversions u).1 (h.kept.pruned x u hu)).2 hlast
  rw [Option.isSome_iff_exists]
  constructor
  · rintro ⟨snapshot, hstored⟩
    obtain ⟨⟨⟨c, hmem⟩, hsite, hversion⟩, hkept⟩ :=
      (h.kept.stored hbound x version snapshot hx).1 hstored
    have hmem : version ∈ s.versionsOf x := mem_versionsOf_iff.2 ⟨_, hmem, hsite, hversion⟩
    exact ⟨hmem, (hpruned hmem).1 hkept⟩
  · rintro ⟨hmem, hlast⟩
    obtain ⟨p, hp, hsite, hversion⟩ := mem_versionsOf_iff.1 hmem
    exact ⟨p.2, (h.kept.stored hbound x version p.2 hx).2
      ⟨⟨⟨p.1, hp⟩, hsite, hversion⟩, (hpruned hmem).2 hlast⟩⟩

end

variable [DecidableEq ι]

inductive Steps (etcdPrefix : Str) (s : History ι κ) (c : ι) (call : SaveCall κ) (reply : Reply) :
    History ι κ → Prop
  | stay (result : Option Nat) (hphase : call.phase = .returned result) : Steps etcdPrefix
      s c call reply s
  | read (attempt version : Nat) (expected : Option Nat) (hphase : call.phase = .reading attempt)
      (hnext : s.nextVersion etcdPrefix call.siteId = some (version, expected)) :
      Steps etcdPrefix s c call reply (s.move c call (.writing attempt version expected))
  | retry (attempt version : Nat) (expected : Option Nat)
      (hphase : call.phase = .writing attempt version expected) :
      Steps etcdPrefix s c call reply (s.move c call (.reading (attempt + 1)))
  | giveUp (hphase : (∃ attempt, call.phase = .reading attempt) ∨
        ∃ attempt version expected, call.phase = .writing attempt version expected) :
      Steps etcdPrefix s c call reply (s.move c call (.returned none))
  | commit (attempt version : Nat) (expected : Option Nat) (phase : SavePhase)
      (hphase : call.phase = .writing attempt version expected)
      (hcompare : (s.store (metaKey etcdPrefix call.siteId)).map (·.2) = expected)
      (hafter : phase = .pruning version ∨ version ≤ maxVersionsPerSite ∧
        phase = .returned (some version) ∨
        reply ≠ .answered ∧ phase = .returned none) :
      Steps etcdPrefix s c call reply
        ((s.commit etcdPrefix c (call.snapshotAt version)).move c call phase)
  | keep (version : Nat) (hphase : call.phase = .pruning version) (hreply : reply = .failed) :
      Steps etcdPrefix s c call reply (s.move c call (.returned (some version)))
  | prune (version : Nat) (hphase : call.phase = .pruning version) : Steps etcdPrefix s c call reply
        ((s.pruneOldVersions etcdPrefix call.siteId version).move c call (.returned (some version)))

theorem proceed_steps (etcdPrefix : Str) (s : History ι κ) (c : ι) (call : SaveCall κ)
    (reply : Reply) :
    Steps etcdPrefix s c call reply (s.proceed etcdPrefix c call reply) := by
  unfold proceed
  split
  next attempt hphase =>
    split
    next version expected hnext => exact .read attempt version expected hphase hnext
    next => exact .giveUp (.inl ⟨attempt, hphase⟩)
  next attempt version expected hphase =>
    split
    · exact .giveUp (.inr ⟨attempt, version, expected, hphase⟩)
    split
    next hcompare =>
      refine .commit attempt version expected _ hphase hcompare ?_
      cases reply with
      | answered =>
        simp only [afterTxn, if_pos]
        split
        next => exact .inl rfl
        next hle => exact .inr (.inl ⟨Nat.not_lt.1 hle, rfl⟩)
      | failed | lost => exact .inr (.inr ⟨by decide, rfl⟩)
    cases reply with
    | answered =>
      simp only [afterTxn]
      split
      next hfalse => cases hfalse
      split
      · exact .retry attempt version expected hphase
      · exact .giveUp (.inr ⟨attempt, version, expected, hphase⟩)
    | failed | lost => exact .giveUp (.inr ⟨attempt, version, expected, hphase⟩)
  next version hphase =>
    split
    · exact .keep version hphase rfl
    · exact .prune version hphase
  next result hphase => exact .stay result hphase

theorem calls_setCall {call' : SaveCall κ} {c' : ι}
    (h : update s.calls c (some call) c' = some call') :
    c' = c ∧ call' = call ∨ s.calls c' = some call' := by
  rw [update_apply] at h
  split at h
  next heq => exact .inl ⟨heq, (Option.some.inj h).symm⟩
  next => exact .inr h

theorem Numbered.setCall (h : Numbered etcdPrefix Saved s) (hsite : Saved call.siteId)
    (hphase : ∀ attempt version expected, call.phase = .writing attempt version expected →
      (∀ r ∈ expected, r ≤ s.revision) ∧
        ((s.store (metaKey etcdPrefix call.siteId)).map (·.2) = expected →
          version = (s.versionsOf call.siteId).length + 1)) :
    Numbered etcdPrefix Saved { s with calls := update s.calls c (some call) } where
  __ := h
  sites c' call' hcall' := by
    obtain ⟨-, rfl⟩ | hold := calls_setCall hcall'
    · exact hsite
    · exact h.sites c' call' hold
  expected c' call' attempt version expected hcall' hwriting := by
    obtain ⟨-, rfl⟩ | hold := calls_setCall hcall'
    · exact hphase attempt version expected hwriting
    · exact h.expected c' call' attempt version expected hold hwriting

theorem Numbered.step (h : Numbered etcdPrefix Saved s) (hseparate : Separate Saved)
    (hcall : s.calls c = some call) (hsteps : Steps etcdPrefix s c call reply s') :
    Numbered etcdPrefix Saved s' := by
  have hsite := h.sites c call hcall
  cases hsteps with
  | stay => exact h
  | read attempt version expected hphase hnext =>
    rw [h.nextVersion_eq hsite] at hnext
    cases hnext
    refine h.setCall hsite fun _ _ _ hwriting => ?_
    cases hwriting
    refine ⟨fun r hr => ?_, fun _ => rfl⟩
    obtain ⟨entry, hentry, rfl⟩ := Option.map_eq_some_iff.1 hr
    exact h.revisions _ entry hentry
  | retry | giveUp | keep => exact h.setCall hsite nofun
  | commit attempt version expected phase hphase hcompare hafter =>
    have hversion := (h.expected c call attempt version expected hcall hphase).2 hcompare
    refine (h.commit hversion).setCall hsite ?_
    rintro _ _ _ rfl
    rcases hafter with hafter | ⟨-, hafter⟩ | ⟨-, hafter⟩ <;> cases hafter
  | prune version => exact (h.prune hseparate hsite version).setCall hsite nofun

theorem Traced.setCall (h : Traced Lossy s)
    (hkeep : ∀ p ∈ s.written, p.1 = c → p.2 = call.snapshotAt p.2.version ∧
      (call.phase = .pruning p.2.version ∨
      call.phase = .returned (some p.2.version) ∨ Lossy ∧ call.phase = .returned none))
    (hhanded : ∀ version, call.phase = .pruning version ∨ call.phase = .returned (some version) →
      (c, call.snapshotAt version) ∈ s.written)
    (hpruned : ∀ version, call.phase = .returned (some version) →
      version ≤ maxVersionsPerSite ∨ (call.siteId, version) ∈ s.pruned ∨ Lossy) :
    Traced Lossy { s with calls := update s.calls c (some call) } where
  __ := h
  writer p hp := by
    by_cases heq : p.1 = c
    · exact ⟨call, heq ▸ update_self .., hkeep p hp heq⟩
    · obtain ⟨call', hcall', hwritten⟩ := h.writer p hp
      exact ⟨call', (update_of_ne heq ..).trans hcall', hwritten⟩
  handed c' call' version hcall' hphase := by
    obtain ⟨rfl, rfl⟩ | hold := calls_setCall hcall'
    · exact hhanded version hphase
    · exact h.handed c' call' version hold hphase
  pruned c' call' version hcall' hphase := by
    obtain ⟨-, rfl⟩ | hold := calls_setCall hcall'
    · exact hpruned version hphase
    · exact h.pruned c' call' version hold hphase

theorem Traced.committed (h : Traced Lossy s) (hnone : ∀ p ∈ s.written, p.1 ≠ c)
    (hafter : phase = .pruning version ∨ version ≤ maxVersionsPerSite ∧
      phase = .returned (some version) ∨
      Lossy ∧ phase = .returned none) :
    Traced Lossy ((s.commit etcdPrefix c (call.snapshotAt version)).move c call phase) where
  writer p hp := by
    rcases mem_append.1 hp with hold | hnew
    · obtain ⟨call', hcall', hwritten⟩ := h.writer p hold
      exact ⟨call', (update_of_ne (hnone p hold) ..).trans hcall', hwritten⟩
    · obtain rfl := mem_singleton.1 hnew
      exact ⟨{ call with phase }, update_self .., rfl, hafter.imp_right (Or.imp_left And.right)⟩
  handed c' call' version' hcall' hphase := by
    obtain ⟨rfl, rfl⟩ | hold := calls_setCall hcall'
    · refine mem_append_right _ (mem_singleton.2 ?_)
      rcases hafter with rfl | ⟨-, rfl⟩ | ⟨-, rfl⟩ <;> rcases hphase with hphase | hphase <;>
        cases hphase <;> rfl
    · exact mem_append_left _ (h.handed c' call' version' hold hphase)
  pruned c' call' version' hcall' hphase := by
    obtain ⟨-, rfl⟩ | hold := calls_setCall hcall'
    · rcases hafter with rfl | ⟨hle, rfl⟩ | ⟨-, rfl⟩ <;> cases hphase
      exact .inl hle
    · exact h.pruned c' call' version' hold hphase
  once := by
    refine (map_append ..).symm ▸ nodup_append.2 ⟨h.once, nodup_singleton c, ?_⟩
    intro c' hc' _ hc heq
    obtain ⟨p, hp, rfl⟩ := mem_map.1 hc'
    exact hnone p hp (heq.trans (mem_singleton.1 hc))

theorem Traced.finish (h : Traced Lossy s) (hcall : s.calls c = some call)
    (hphase : call.phase = .pruning version) (hpruned : (call.siteId, version) ∈ s.pruned ∨ Lossy) :
    Traced Lossy (s.move c call (.returned (some version))) := by
  refine h.setCall (fun p hp heq => ?_) (fun version' hreturned => ?_) fun version' hreturned => ?_
  · obtain ⟨call', hcall', hsnapshot, hwritten⟩ := h.writer p hp
    rw [heq, hcall] at hcall'
    cases hcall'
    rw [hphase] at hwritten
    rcases hwritten with hwritten | hwritten | ⟨-, hwritten⟩ <;> cases hwritten
    exact ⟨hsnapshot, .inr (.inl rfl)⟩
  · rcases hreturned with hreturned | hreturned <;> cases hreturned
    exact h.handed c call version hcall (.inl hphase)
  · cases hreturned
    exact .inr hpruned

theorem Traced.step (h : Traced Lossy s) (hcall : s.calls c = some call)
    (hreply : reply = .answered ∨ Lossy)
    (hsteps : Steps etcdPrefix s c call reply s') : Traced Lossy s' := by
  cases hsteps with
  | stay => exact h
  | read attempt version expected hphase =>
    have hnone := h.not_written hcall (.inl ⟨attempt, hphase⟩)
    exact h.setCall (fun p hp heq => absurd heq (hnone p hp)) nofun nofun
  | retry attempt version expected hphase =>
    have hnone := h.not_written hcall (.inr ⟨attempt, version, expected, hphase⟩)
    exact h.setCall (fun p hp heq => absurd heq (hnone p hp)) nofun nofun
  | giveUp hphase =>
    have hnone := h.not_written hcall hphase
    exact h.setCall (fun p hp heq => absurd heq (hnone p hp)) nofun nofun
  | commit attempt version expected phase hphase hcompare hafter =>
    have hnone := h.not_written hcall (.inr ⟨attempt, version, expected, hphase⟩)
    refine h.committed hnone (hafter.imp_right (Or.imp_right fun hlost => ⟨?_, hlost.2⟩))
    exact hreply.resolve_left hlost.1
  | keep version hphase hfailed =>
    refine h.finish hcall hphase (.inr (hreply.resolve_left ?_))
    rw [hfailed]
    decide
  | prune version hphase =>
    refine (h.prune call.siteId version).finish hcall hphase (.inl ?_)
    exact mem_append_cons_self

theorem Kept.step (h : Kept etcdPrefix Saved s) (hseparate : Separate Saved) {Lossy : Prop}
    (hnumbered : Numbered etcdPrefix Saved s) (htraced : Traced Lossy s)
    (hcall : s.calls c = some call)
    (hsteps : Steps etcdPrefix s c call reply s') : Kept etcdPrefix Saved s' := by
  have hsite := hnumbered.sites c call hcall
  have hrange : ∀ v ∈ s.versionsOf call.siteId, 1 ≤ v ∧ v ≤ (s.versionsOf call.siteId).length := by
    intro v hv
    rw [hnumbered.versions call.siteId hsite, mem_range'_1] at hv
    omega
  have hmove : ∀ s' : History ι κ, Kept etcdPrefix Saved s' → ∀ phase,
      Kept etcdPrefix Saved (s'.move c call phase) := fun s' h' phase => ⟨h'.stored, h'.pruned⟩
  cases hsteps with
  | stay => exact h
  | read | retry | giveUp | keep => exact hmove s h _
  | commit attempt version expected phase hphase hcompare =>
    have hversion := (hnumbered.expected c call attempt version expected hcall hphase).2 hcompare
    refine hmove _ (h.commit fun u hu => ?_) phase
    exact Nat.lt_of_le_of_lt (hrange u hu).2 (hversion ▸ Nat.lt_succ_self _)
  | prune version hphase =>
    have hwritten := htraced.handed c call version hcall (.inl hphase)
    refine hmove _ (h.prune hseparate hsite (fun v hv => (hrange v hv).1) ?_) _
    exact mem_versionsOf_iff.2 ⟨_, hwritten, rfl, rfl⟩

def Saves (events : List (SaveEvent ι ω)) (x : Str) : Prop :=
  ∃ c request, .call c request ∈ events ∧ request.siteId = x

/-- Some request of the run has failed, or was not answered. -/
def Loses (events : List (SaveEvent ι ω)) : Prop :=
  ∃ c reply, .proceed c reply ∈ events ∧ reply ≠ .answered

/-- What an event may be, in a run that saves `Saved` and loses replies if `Lossy`. -/
def Allowed (Saved : Str → Prop) (Lossy : Prop) : SaveEvent ι ω → Prop
  | .call _ request => Saved request.siteId
  | .proceed _ reply => reply = .answered ∨ Lossy

variable {json : Json ω κ}

theorem Sound.step (h : Sound etcdPrefix Saved Lossy s) (hseparate : Separate Saved)
    {e : SaveEvent ι ω} (hallowed : Allowed Saved Lossy e) :
      Sound etcdPrefix Saved Lossy (s.step etcdPrefix json e) := by
  cases e with
  | call c request =>
    simp only [History.step]
    split
    next => exact h
    next hcall =>
      refine ⟨h.numbered.setCall hallowed nofun, ?_, h.kept.stored, h.kept.pruned⟩
      refine h.traced.setCall (fun p hp heq => ?_) nofun nofun
      obtain ⟨call', hcall', -⟩ := h.traced.writer p hp
      rw [heq, hcall] at hcall'
      cases hcall'
  | proceed c reply =>
    simp only [History.step]
    split
    next call hcall =>
      have hsteps := proceed_steps etcdPrefix s c call reply
      exact ⟨h.numbered.step hseparate hcall hsteps, h.traced.step hcall hallowed hsteps,
        h.kept.step hseparate h.numbered h.traced hcall hsteps⟩
    next => exact h

theorem sound_run (etcdPrefix : Str) (json : Json ω κ) {events : List (SaveEvent ι ω)}
    (hseparate : Separate (Saves events)) :
    Sound etcdPrefix (Saves events) (Loses events)
    (run etcdPrefix json ({} : History ι κ) events) := by
  have hall : ∀ e ∈ events, Allowed (Saves events) (Loses events) e := by
    intro e he
    cases e with
    | call c request => exact ⟨c, request, he, rfl⟩
    | proceed c reply =>
      by_cases hreply : reply = .answered
      · exact .inl hreply
      · exact .inr ⟨c, reply, he, hreply⟩
  exact List.foldlRecOn events _ sound_start fun s h e he => h.step hseparate (hall e he)

/-- If no site that is saved has a name that goes on like the versions of another, then in every run
the versions written for a site are 1 to n, each once, and a version that is returned was written by
the call that returned it, and by no other. -/
theorem saveVersion_versions (etcdPrefix : Str) (json : Json ω κ) (events : List (SaveEvent ι ω))
    (hseparate : Separate (Saves events)) (x : Str) (hx : Saves events x) :
    let s : History ι κ := run etcdPrefix json {} events
    s.versionsOf x = List.range' 1 (s.versionsOf x).length ∧
    (∀ c version, HandedOut s x c version → version ∈ s.versionsOf x ∧
      ∀ c', HandedOut s x c' version → c' = c) ∧
    (¬ Loses events → AtRest s →
      (∀ version ∈ s.versionsOf x, ∃ c, HandedOut s x c version) ∧
      ((∀ p ∈ s.written, p.2.version < 10 ^ 10) → ∀ version,
        ((s.getVersion etcdPrefix x version).isSome = true ↔
          version ∈ s.versionsOf x ∧ (s.versionsOf x).length < version + 50))) := by
  intro s
  have hsound : Sound etcdPrefix (Saves events) (Loses events) s :=
    sound_run etcdPrefix json hseparate
  refine ⟨hsound.numbered.versions x hx, fun c version hout => ?_, fun hlossless hrest => ⟨?_, ?_⟩⟩
  · obtain ⟨p, hp, hpc, hpx, hpv⟩ := hsound.mem_of_handedOut hout
    refine ⟨mem_versionsOf_iff.2 ⟨p, hp, hpx, hpv⟩, fun c' hout' => ?_⟩
    obtain ⟨q, hq, hqc, hqx, hqv⟩ := hsound.mem_of_handedOut hout'
    have hnodup : (s.versionsOf x).Nodup := by
      rw [hsound.numbered.versions x hx]
      exact nodup_range'
    rw [← hpc, ← hqc, inj_on_of_nodup_map hnodup (mem_filter.2 ⟨hq, by simpa using hqx⟩)
      (mem_filter.2 ⟨hp, by simpa using hpx⟩) (hqv.trans hpv.symm)]
  · exact fun version hmem => hsound.handedOut_of_mem hlossless hrest hmem
  · exact fun hbound version => hsound.stored_iff hx hlossless hrest hbound version

def unitJson : Json Unit Unit where
  decode := fun _ => some ()
  encode := id
  emptyObject := ()
  decode_encode := fun _ => rfl

def save {ι : Type} (siteId : Str) (c : ι) : SaveEvent ι Unit := .call c ⟨siteId, (), 0, .updated⟩

def wholeCall {ι : Type} (siteId : Str) (c : ι) : List (SaveEvent ι Unit) :=
  [save siteId c, .proceed c .answered, .proceed c .answered, .proceed c .answered]

def hasReturned : SavePhase → Bool
  | .returned _ => true
  | _ => false

/-- Two calls for `x` read the same counter, and the second has to read it again; a call for `y`
comes between them. Fifty more for `x` follow. -/
def busyRun : List (SaveEvent (Fin 53) Unit) :=
  [save "x" 0, save "x" 1, save "y" 2] ++
    ([0, 1, 2, 0, 1, 0, 2, 1, 2, 1, 1].map fun c => .proceed c .answered) ++
    (List.range' 3 50).flatMap fun c => wholeCall "x" (.ofNat 53 c)

theorem saveVersion_versions_busy :
    let s : History (Fin 53) Unit := run [] unitJson {} busyRun
    s.versionsOf "x" = List.range' 1 52 ∧ s.versionsOf "y" = [1] ∧
      ∀ version, (s.getVersion [] "x" version).isSome = true ↔
        version ∈ List.range' 1 52 ∧ 52 < version + 50 := by
  intro s
  have hall : ∀ e ∈ busyRun, Allowed (fun y => y = "x" ∨ y = "y") False e := by
    simp only [busyRun, forall_mem_append, forall_mem_flatMap, forall_mem_map,
      wholeCall, save, forall_mem_cons, Allowed]
    simp
  have hseparate : Separate (Saves busyRun) := by
    rintro y z ⟨c, request, hcall, rfl⟩ ⟨d, other, hother, rfl⟩
    rcases hall _ hcall with hy | hy <;> rcases hall _ hother with hz | hz <;>
      rw [hy, hz] <;> decide
  have hlossless : ¬ Loses busyRun := by
    rintro ⟨c, reply, hmem, hne⟩
    exact (hall _ hmem).elim hne id
  have hrest : AtRest s := by
    have hreturned : ∀ c, (s.calls c).all (fun call => hasReturned call.phase) = true := by
      decide +kernel
    intro c call hcall
    have hphase := hreturned c
    rw [hcall, Option.all_some] at hphase
    cases hcase : call.phase with
    | returned result => exact ⟨result, rfl⟩
    | _ => rw [hcase] at hphase; cases hphase
  have hx := saveVersion_versions [] unitJson busyRun hseparate "x"
    ⟨0, _, mem_cons_self, rfl⟩
  have hy := saveVersion_versions [] unitJson busyRun hseparate "y"
    ⟨2, _, mem_cons_of_mem _ (mem_cons_of_mem _ mem_cons_self), rfl⟩
  have hlength : (s.versionsOf "x").length = 52 ∧ (s.versionsOf "y").length = 1 := by
    decide +kernel
  have hversions : s.versionsOf "x" = List.range' 1 52 := hx.1.trans (by rw [hlength.1])
  refine ⟨hversions, hy.1.trans (by rw [hlength.2]; rfl), fun version => ?_⟩
  rw [(hx.2.2 hlossless hrest).2 (by decide +kernel) version, hversions, length_range']

/-- The site whose counter lies in the range that is deleted for the site `x`. -/
def nested : Str := "x/v/0000000001"

/-- Both sites are saved, and when the first version of `x` is deleted the counter of the other goes
with it: its next version is 1 again. -/
theorem versions_fails : (run [] unitJson ({} : History Nat Unit)
      (wholeCall nested 0 ++ (List.range' 1 51).flatMap (wholeCall "x") ++
        wholeCall nested 52)).versionsOf nested = [1, 1] := by
  decide +kernel

end Nozdormu.Config.History
