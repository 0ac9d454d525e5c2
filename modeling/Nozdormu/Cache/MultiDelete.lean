import Nozdormu.Cache.Storage
import Nozdormu.Rust.TaskTriple

/-!
# Multi-object deletes

`delete_objects_batch` of `cdn-cache/src/oss.rs` asks the object store to delete up to a thousand
objects with one request, and counts the `Deleted` elements of the response. The request asks for
quiet mode, in which S3 names only the objects that could not be deleted: the count is 0 whatever
was deleted (`deleteMany_count_iff`).
-/

namespace Nozdormu.Cache

open Rust

def escapeXml : Char → Str
  | '&' => "&amp;"
  | '<' => "&lt;"
  | '>' => "&gt;"
  | '"' => "&quot;"
  | '\'' => "&apos;"
  | c => [c]

def buildDeleteXml (keys : List Str) : Str :=
  "<?xml version=\"1.0\" encoding=\"UTF-8\"?>\n<Delete><Quiet>true</Quiet>".toList ++
    keys.flatMap (fun key => "<Object><Key>".toList ++ key.flatMap escapeXml ++
      "</Key></Object>".toList) ++
    "</Delete>".toList

/-- What the reader of XML comes across; the end of the text is the end of the list. -/
inductive XmlEvent where
  | start (name : Str)
  | close (name : Str)
  | text (s : Str)
  | other
  | error
deriving DecidableEq

def parseDeleteResultCount (p : Profile) : (events : List XmlEvent) → (count : Nat) → Exec Empty Nat
  | [], count | .error :: _, count => return count
  | .start name :: events, count => do
    if name = "Deleted" then parseDeleteResultCount p events (← p.add 32 count 1)
    else parseDeleteResultCount p events count
  | _ :: events, count => parseDeleteResultCount p events count

/-- The request has a `Quiet` element that says `true`. -/
def quiet (request : Str) : Bool :=
  ((splitOnce "<Quiet>".toList request).bind fun r => splitOnce "</Quiet>".toList r.2).any
    fun r => r.1 = "true".toList

def objectCount (request : Str) : Nat :=
  request.tails.countP fun text => (stripStart "<Object>" text).isSome

/-- The response when all objects were deleted: they are named, but not in quiet mode. -/
def AllDeleted (request : Str) (response : List XmlEvent) : Prop :=
  response.count (.start "Deleted") = if quiet request then 0 else objectCount request

/-- Stores of which the object store keeps to the protocol and deletes what it is asked to. -/
structure DeletingStores (p : Profile) (σ : Type) where
  serve : (c : StoreCall) → σ → c.Answer × σ
  answer : ∀ paths s, ∃ response count, AllDeleted (buildDeleteXml paths) response ∧
    parseDeleteResultCount p response 0 = .ok count ∧ (serve (.deleteObjects paths) s).1 = .ok count

theorem parseDeleteResultCount_eq (p : Profile) {events : List XmlEvent}
    (h : .start "Deleted" ∉ events) : parseDeleteResultCount p events 0 = .ok 0 := by
  induction events with
  | nil => rfl
  | cons e events ih =>
    rw [List.mem_cons, not_or] at h
    cases e with
    | start name =>
      rw [parseDeleteResultCount, if_neg fun heq => h.1 (by rw [heq])]
      exact ih h.2
    | close | text | other => exact ih h.2
    | error => rfl

namespace DeletingStores

variable {p : Profile} {σ : Type} (stores : DeletingStores p σ)

theorem serve_deleteObjects (paths : List Str) (s : σ) :
    (stores.serve (.deleteObjects paths) s).1 = .ok 0 := by
  obtain ⟨response, count, hdeleted, hcount, hserve⟩ := stores.answer paths s
  have hquiet : quiet (buildDeleteXml paths) = true := rfl
  rw [AllDeleted, hquiet, if_pos rfl, List.count_eq_zero] at hdeleted
  rw [parseDeleteResultCount_eq p hdeleted] at hcount
  rw [hserve, ← Except.ok.inj hcount]

theorem ensures_deleteObjectsBatch_zero (chunks : List (List Str)) :
    Task.Ensures stores.serve (fun _ => True) (CacheStorage.deleteObjectsBatch p chunks 0)
      fun r _ => r = .ok 0 := by
  induction chunks with
  | nil => exact Task.ensures_done fun _ _ => rfl
  | cons chunk chunks ih =>
    refine Task.ensures_perform_bind (M := fun r _ => r = .ok 0)
      (fun s _ => stores.serve_deleteObjects chunk s) fun r s a s' hr => ?_
    subst hr
    exact ih s a s' trivial

theorem ensures_deleteMany_zero (self : CacheStorage) (siteId : Str) (keys : List Str) :
    Task.Ensures stores.serve (fun _ => True) (self.deleteMany p siteId keys)
      fun r _ => r = .ok 0 := by
  have hbodies : Task.Ensures stores.serve (fun _ => True) (self.deleteBodies p siteId keys)
      fun r _ => r = .ok 0 := by
    unfold CacheStorage.deleteBodies
    split
    · exact Task.ensures_ofExec_bind fun paths _ => stores.ensures_deleteObjectsBatch_zero _
    · exact Task.ensures_done fun _ _ => rfl
  unfold CacheStorage.deleteMany
  split
  · exact Task.ensures_done fun _ _ => rfl
  refine hbodies.bind fun batch s a s' hbatch hrun => ?_
  subst hbatch
  dsimp only at hrun
  split at hrun
  · exact Task.Ensures.bind (P := fun _ => True) (Q := fun r _ => r = .ok 0) (R := fun _ _ => True)
      (fun _ _ _ _ _ => trivial) (fun _ => Task.ensures_done fun _ _ => rfl) s a s' trivial hrun
  · exact (Except.ok.inj (Prod.mk.inj hrun).1).symm

end DeletingStores

/-- What `delete_many` returns is the number of keys only if there are none. -/
theorem deleteMany_count_iff {p : Profile} {σ : Type} (stores : DeletingStores p σ)
    (self : CacheStorage) (siteId : Str) (keys : List Str) (s : σ) :
    ((self.deleteMany p siteId keys).run stores.serve s).1 = .ok (.ok keys.length) ↔ keys = [] := by
  refine ⟨fun h => ?_, fun h => by rw [h]; rfl⟩
  have hzero := stores.ensures_deleteMany_zero self siteId keys s _ _ trivial (Prod.ext h rfl)
  simpa using hzero

def reachable (p : Profile) : DeletingStores p Stores where
  serve := Stores.serve
  answer _ _ := ⟨[], 0, rfl, rfl, rfl⟩

def oneObject : Stores := ⟨⟨0, Clock.zero_bound⟩, ∅, AList.singleton "cache/s/ab/ab" [1], []⟩

/-- One object is deleted and none is counted. -/
theorem deleteMany_one_zero :
    (((⟨true, true⟩ : CacheStorage).deleteMany .dev "s" ["ab"]).run
      (reachable .dev).serve oneObject)
      = (.ok (.ok 0), { oneObject with objects := ∅ }) :=
  rfl

end Nozdormu.Cache
