import Nozdormu.Data.Separator
import Nozdormu.Rust.KeyOrder

/-!
# The version history of a site
-/

namespace Nozdormu.Config

open Rust Data List

inductive ConfigChangeType where
  | created
  | updated
  | deleted
  | rollback
deriving DecidableEq

structure Json (ω κ : Type) where
  decode : ω → Option κ
  encode : κ → ω
  emptyObject : κ
  decode_encode : ∀ value, decode (encode value) = some value

structure Snapshot (κ : Type) where
  version : Nat
  siteId : Str
  etcdRevision : Nat
  changeType : ConfigChangeType
  config : κ
deriving DecidableEq

/-- What is stored in the history: `VersionMeta`, or a snapshot. -/
inductive HistoryValue (κ : Type) where
  | latest (version : Nat)
  | snapshot (s : Snapshot κ)
deriving DecidableEq

structure SaveRequest (ω : Type) where
  siteId : Str
  configJson : ω
  etcdRevision : Nat
  changeType : ConfigChangeType

inductive SavePhase where
  /-- before it reads the counter -/
  | reading (attempt : Nat)
  /-- before the transaction; `expected` is the `mod_revision` of the counter, or none if there is
  none -/
  | writing (attempt version : Nat) (expected : Option Nat)
  /-- before the deletion -/
  | pruning (version : Nat)
  | returned (result : Option Nat)

structure SaveCall (κ : Type) where
  siteId : Str
  etcdRevision : Nat
  changeType : ConfigChangeType
  config : κ
  phase : SavePhase := .reading 0

def SaveCall.snapshotAt {κ : Type} (call : SaveCall κ) (version : Nat) : Snapshot κ where
  version := version
  siteId := call.siteId
  etcdRevision := call.etcdRevision
  changeType := call.changeType
  config := call.config

/-- The history in etcd, each value with its `mod_revision`, and the calls. -/
structure History (ι κ : Type) where
  store : Str → Option (HistoryValue κ × Nat) := fun _ => none
  revision : Nat := 0
  calls : ι → Option (SaveCall κ) := fun _ => none
  written : List (ι × Snapshot κ) := []
  pruned : List (Str × Nat) := []

inductive Reply where
  | answered
  /-- it has no effect -/
  | failed
  /-- it takes effect, but there is no answer -/
  | lost
deriving DecidableEq

inductive SaveEvent (ι ω : Type) where
  | call (c : ι) (request : SaveRequest ω)
  | proceed (c : ι) (reply : Reply)

def maxVersionsPerSite : Nat := 50

def maxCasRetries : Nat := 5

def historyPrefix (etcdPrefix : Str) : Str := etcdPrefix ++ "/config_history/"

def metaKey (etcdPrefix siteId : Str) : Str := historyPrefix etcdPrefix ++ (siteId ++ "/meta")

def versionKey (etcdPrefix siteId : Str) (version : Nat) : Str :=
  historyPrefix etcdPrefix ++ (siteId ++ ("/v/" ++ padded 10 version))

/-- The keys from the first version up to the cutoff. -/
def InRange (etcdPrefix siteId : Str) (cutoff : Nat) (key : Str) : Prop :=
  ¬ key < versionKey etcdPrefix siteId 1 ∧ key < versionKey etcdPrefix siteId (cutoff + 1)

instance (etcdPrefix siteId : Str) (cutoff : Nat) (key : Str) :
    Decidable (InRange etcdPrefix siteId cutoff key) := inferInstanceAs (Decidable (_ ∧ _))

variable {etcdPrefix x y : Str} {v u cutoff : Nat}

theorem padded_ne_nil (n : Nat) : padded 10 n ≠ [] :=
  fun h => digits_ne_nil n (append_eq_nil_iff.1 h).2

theorem not_mem_padded {c : Char} (h : c.isDigit = false) (width n : Nat) : c ∉ padded width n := by
  intro hmem
  rw [isDigit_of_mem_padded hmem] at h
  cases h

theorem metaKey_inj : metaKey etcdPrefix x = metaKey etcdPrefix y ↔ x = y := by
  refine ⟨fun h => ?_, fun h => by rw [h]⟩
  exact append_cancel_right (append_cancel_left h)

theorem versionKey_inj : versionKey etcdPrefix x v = versionKey etcdPrefix y u ↔ x = y ∧ v = u := by
  refine ⟨fun h => ?_, fun h => by rw [h.1, h.2]⟩
  have hkeys : (x ++ "/v") ++ '/' :: padded 10 v = (y ++ "/v") ++ '/' :: padded 10 u := by
    simpa using append_cancel_left h
  obtain ⟨hsite, hversion⟩ :=
    append_cons_inj_right (not_mem_padded (by decide) 10 v) (not_mem_padded (by decide) 10 u) hkeys
  exact ⟨append_cancel_right hsite, padded_inj hversion⟩

theorem metaKey_ne_versionKey : metaKey etcdPrefix x ≠ versionKey etcdPrefix y v := by
  intro h
  have hlast := congrArg List.getLast? (append_cancel_left h)
  rw [List.getLast?_append_of_ne_nil _ (by decide), ← append_assoc,
    List.getLast?_append_of_ne_nil _ (padded_ne_nil v)] at hlast
  exact not_mem_padded (by decide) 10 v (mem_of_getLast? hlast.symm)

theorem not_lt_padded {c : Char} (h : '9' < c) (rest : Str) (n : Nat) :
    ¬ c :: rest < padded 10 n := by
  intro hlt
  cases hpadded : padded 10 n with
  | nil => exact padded_ne_nil n hpadded
  | cons d digits =>
    have hdigit : d.isDigit = true := isDigit_of_mem_padded (hpadded ▸ mem_cons_self)
    have hle : d ≤ '9' := by
      simp only [Char.isDigit, Bool.and_eq_true, decide_eq_true_eq] at hdigit
      exact hdigit.2
    rw [hpadded, cons_lt_cons_iff] at hlt
    rcases hlt with hlt | ⟨rfl, -⟩
    · exact Char.not_lt.2 hle (Char.lt_trans h hlt)
    · exact Char.not_lt.2 hle h

theorem inRange_versionKey_iff (hv : v < 10 ^ 10) (hcutoff : cutoff + 1 < 10 ^ 10) :
    InRange etcdPrefix x cutoff (versionKey etcdPrefix x v) ↔ 1 ≤ v ∧ v ≤ cutoff := by
  unfold InRange versionKey
  rw [append_lt_append_iff, append_lt_append_iff, append_lt_append_iff, append_lt_append_iff,
    append_lt_append_iff, append_lt_append_iff, padded_lt_iff (by decide) hv (by decide),
    padded_lt_iff (by decide) hv hcutoff, Nat.not_lt, Nat.lt_succ_iff]

theorem toList_slashes : "/v/" = ['/', 'v', '/'] := by decide

theorem InRange.tail {tail : Str}
    (h : InRange etcdPrefix x cutoff (historyPrefix etcdPrefix ++ (y ++ tail)))
    (hsite : ¬ x ++ "/v/".toList <+: y) : ∃ front rest, x ++ "/v/".toList = y ++ (front ++ ['/']) ∧
      tail = front ++ '/' :: rest ∧ rest < padded 10 (cutoff + 1) := by
  -- it lies below the versions of the site, and behind no number
  unfold InRange versionKey at h
  obtain ⟨hstart, hend⟩ := h
  rw [append_lt_append_iff, ← append_assoc] at hstart hend
  obtain ⟨rest, hkey⟩ := isPrefix_of_between hstart hend
  rw [← hkey, append_lt_append_iff] at hend
  rcases append_eq_append_iff.1 hkey.symm with ⟨middle, hmiddle, htail⟩ | ⟨middle, hmiddle, -⟩
  · have hne : middle ≠ [] := by
      rintro rfl
      rw [append_nil] at hmiddle
      exact hsite (hmiddle ▸ prefix_refl _)
    have hlast := congrArg List.getLast? hmiddle
    rw [List.getLast?_append_of_ne_nil _ hne, toList_slashes, List.getLast?_append_cons] at hlast
    obtain ⟨front, rfl⟩ : ∃ front, middle = front ++ ['/'] := List.getLast?_eq_some_iff.1 hlast.symm
    exact ⟨front, rest, hmiddle, by rw [htail, append_assoc, singleton_append], hend⟩
  · exact absurd ⟨middle, hmiddle.symm⟩ hsite

theorem not_inRange_metaKey (hsite : ¬ x ++ "/v/".toList <+: y) :
    ¬ InRange etcdPrefix x cutoff (metaKey etcdPrefix y) := by
  intro hrange
  obtain ⟨front, rest, -, htail, hlt⟩ := hrange.tail hsite
  cases front with
  | nil =>
    cases htail
    exact not_lt_padded (by decide) _ _ hlt
  | cons c front =>
    have hmem : '/' ∈ "meta".toList := by
      rw [show "meta".toList = front ++ '/' :: rest from (List.cons.inj htail).2]
      exact mem_append_cons_self
    exact absurd hmem (by decide)

theorem not_inRange_versionKey (hsite : ¬ x ++ "/v/".toList <+: y) (hne : x ≠ y) :
    ¬ InRange etcdPrefix x cutoff (versionKey etcdPrefix y v) := by
  intro hrange
  obtain ⟨front, rest, hmiddle, htail, hlt⟩ := hrange.tail hsite
  rw [toList_slashes] at hmiddle htail
  rcases front with _ | ⟨a, _ | ⟨b, _ | ⟨c, front⟩⟩⟩ <;>
    simp only [cons_append, nil_append, List.cons.injEq] at htail
  · obtain ⟨-, rfl⟩ := htail
    exact not_lt_padded (by decide) _ _ hlt
  · exact absurd htail.2.1 (by decide)
  · obtain ⟨rfl, rfl, -⟩ := htail
    exact hne (append_cancel_right hmiddle)
  · have hmem : '/' ∈ padded 10 v := by
      rw [htail.2.2.2]
      exact mem_append_cons_self
    exact not_mem_padded (by decide) 10 v hmem

/-! ## `save_version` -/

namespace History

variable {ι ω κ : Type} [DecidableEq ι]

def move (s : History ι κ) (c : ι) (call : SaveCall κ) (phase : SavePhase) : History ι κ :=
  { s with calls := Function.update s.calls c (some { call with phase }) }

section Steps

variable (etcdPrefix : Str)

variable (s : History ι κ)

/-- The version that the counter leads to, and its `mod_revision`; none if it cannot be parsed. -/
def nextVersion (siteId : Str) : Option (Nat × Option Nat) :=
  match s.store (metaKey etcdPrefix siteId) with
  | some (.latest version, revision) => some (version + 1, some revision)
  | some (.snapshot _, _) => none
  | none => some (1, none)

def commit (c : ι) (snapshot : Snapshot κ) : History ι κ :=
  { s with
    store := Function.update (Function.update s.store (metaKey etcdPrefix snapshot.siteId)
        (some (.latest snapshot.version, s.revision + 1)))
      (versionKey etcdPrefix snapshot.siteId snapshot.version)
        (some (.snapshot snapshot, s.revision + 1))
    revision := s.revision + 1
    written := s.written ++ [(c, snapshot)] }

def pruneOldVersions (siteId : Str) (version : Nat) : History ι κ :=
  { s with
    store := fun key =>
      if InRange etcdPrefix siteId (version - maxVersionsPerSite) key then none else s.store key
    pruned := s.pruned ++ [(siteId, version)] }

def afterTxn (succeeded : Bool) (attempt version : Nat) : Reply → SavePhase
  | .answered =>
    if succeeded then
      if maxVersionsPerSite < version then .pruning version else .returned (some version)
    else if attempt + 1 < maxCasRetries then .reading (attempt + 1)
    else .returned none
  | _ => .returned none

def proceed (c : ι) (call : SaveCall κ) (reply : Reply) : History ι κ :=
  match call.phase with
  | .reading attempt =>
    match reply, s.nextVersion etcdPrefix call.siteId with
    | .answered, some (version, expected) => s.move c call (.writing attempt version expected)
    | _, _ => s.move c call (.returned none)
  | .writing attempt version expected =>
    match reply with
    | .failed => s.move c call (.returned none)
    | reply =>
      if (s.store (metaKey etcdPrefix call.siteId)).map (·.2) = expected then
        (s.commit etcdPrefix c (call.snapshotAt version)).move c call
          (afterTxn true attempt version reply)
      else s.move c call (afterTxn false attempt version reply)
  | .pruning version =>
    match reply with
    | .failed => s.move c call (.returned (some version))
    | _ => (s.pruneOldVersions etcdPrefix call.siteId version).move c call
        (.returned (some version))
  | .returned _ => s

def step (json : Json ω κ) (s : History ι κ) : SaveEvent ι ω → History ι κ
  | .call c request =>
    match s.calls c with
    | some _ => s
    | none =>
      { s with
        calls := Function.update s.calls c (some {
          siteId := request.siteId
          etcdRevision := request.etcdRevision
          changeType := request.changeType
          config := (json.decode request.configJson).getD json.emptyObject }) }
  | .proceed c reply =>
    match s.calls c with
    | some call => s.proceed etcdPrefix c call reply
    | none => s

def run (json : Json ω κ) (s : History ι κ) (events : List (SaveEvent ι ω)) : History ι κ :=
  events.foldl (step etcdPrefix json) s

def getVersion (siteId : Str) (version : Nat) : Option (Snapshot κ) :=
  match s.store (versionKey etcdPrefix siteId version) with
  | some (.snapshot snapshot, _) => some snapshot
  | _ => none

end Steps

end History

end Nozdormu.Config
