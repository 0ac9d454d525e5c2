import Nozdormu.Ingest.Segmenter
import Nozdormu.Data.Race

/-!
# The store of live streams

`cdn-ingest/src/store.rs`: a live stream is a ring buffer of closed segments, the parts of the
segment in progress, the numbers of both, and the requests that wait for one of them.
-/

namespace Nozdormu.Ingest

open Rust Bmff Data

abbrev LivePart := CompletedPart
abbrev LiveSegment := CompletedSegment

/-- A request that waits for a segment, or for a part of one. -/
structure Waiter where
  targetMsn : Nat
  targetPart : Option Nat
  /-- which channel is sent to when the target is there -/
  sender : Nat
deriving DecidableEq, Repr

structure LiveStream where
  initSegment : Option Bytes
  segments : List LiveSegment
  mediaSequence : Nat
  nextSequence : Nat
  currentParts : List LivePart
  currentPartSequence : Nat
  segmentDuration : Float
  partDuration : Float
  llHlsEnabled : Bool
  maxSegments : Nat
  ended : Bool
  waiters : List Waiter
deriving DecidableEq, Repr

namespace LiveStream

def new (segmentDuration partDuration : Float) (llHlsEnabled : Bool) (maxSegments : Nat) :
    LiveStream where
  initSegment := none
  segments := []
  mediaSequence := 0
  nextSequence := 0
  currentParts := []
  currentPartSequence := 0
  segmentDuration := segmentDuration
  partDuration := partDuration
  llHlsEnabled := llHlsEnabled
  maxSegments := maxSegments
  ended := false
  waiters := []

variable (s : LiveStream) (targetMsn : Nat) (targetPart : Option Nat)

/-- Is the target a closed segment, or a part in progress? -/
def isAvailable : Bool :=
  s.segments.getLast?.any (fun last => targetMsn ≤ last.sequence) ||
    (targetMsn = s.currentPartSequence &&
      match targetPart with
      | none => !s.currentParts.isEmpty
      | some part => part < s.currentParts.length)

/-- What ends a wait. -/
def isReady : Bool :=
  s.isAvailable targetMsn targetPart || s.ended

/-- Send to the waiters whose target is there, keep the others. -/
def notifyWaiters (s : LiveStream) : LiveStream :=
  { s with waiters := s.waiters.filter fun w => !s.isReady w.targetMsn w.targetPart }

def notifyAllWaiters (s : LiveStream) : LiveStream := { s with waiters := [] }

def addWaiter (sender : Nat) :
    LiveStream :=
  { s with waiters := s.waiters ++ [⟨targetMsn, targetPart, sender⟩] }

/-- `while segments.len() > max_segments`: drop the oldest and count it. -/
def evict (p : Profile) (maxSegments : Nat) :
    (segments : List LiveSegment) → (mediaSequence : Nat) →
    Exec IngestError (List LiveSegment × Nat)
  | [], mediaSequence => return ([], mediaSequence)
  | seg :: segs, mediaSequence =>
    if maxSegments < (seg :: segs).length then do
      evict p maxSegments segs (← p.add 64 mediaSequence 1)
    else return (seg :: segs, mediaSequence)

theorem returns_evict_release (maxSegments : Nat) : ∀ (segments : List LiveSegment) (media : Nat),
    Returns (evict .release maxSegments segments media) := by
  intro segments
  induction segments with
  | nil => intro media; exact ⟨_, rfl⟩
  | cons seg segs ih =>
    intro media
    unfold evict
    split
    · exact (returns_release_add ..).bind fun next _ => ih next
    · exact ⟨_, rfl⟩

/-- A closed segment replaces the parts in progress. -/
def pushSegment (p : Profile) (s : LiveStream) (segment : LiveSegment) :
    Exec IngestError LiveStream := do
  let (segments, mediaSequence) ← evict p s.maxSegments (s.segments ++ [segment]) s.mediaSequence
  let nextSequence ← p.add 64 s.nextSequence 1
  return notifyWaiters
    { s with
      segments, mediaSequence, nextSequence
      currentParts := [], currentPartSequence := nextSequence }

def pushPart (s : LiveStream) (part : LivePart) : LiveStream :=
  notifyWaiters { s with currentParts := s.currentParts ++ [part] }

def setInitSegment (s : LiveStream) (data : Bytes) : LiveStream :=
    { s with initSegment := some data }

def finish (s : LiveStream) : LiveStream := notifyAllWaiters { s with ended := true }

end LiveStream

structure LiveStreamStore where
  /-- the map, from keys to objects -/
  streams : List (String × Nat)
  objects : List LiveStream
  maxSegments : Nat
  maxStreams : Nat
deriving DecidableEq, Repr

namespace LiveStreamStore

def new (maxSegments maxStreams : Nat) : LiveStreamStore := ⟨[], [], maxSegments, maxStreams⟩

def streamKey (app streamName : String) : String := app ++ "/" ++ streamName

variable (store : LiveStreamStore) (app streamName : String)

def createStream (segmentDuration partDuration : Float) (llHlsEnabled : Bool) :
    Exec IngestError (Nat × LiveStreamStore) := do
  let key := streamKey app streamName
  ensure (store.streams.length < store.maxStreams) (.maxStreams store.maxStreams)
  ensure ((store.streams.lookup key).isNone) (.alreadyExists key)
  let stream := LiveStream.new segmentDuration partDuration llHlsEnabled store.maxSegments
  let handle := store.objects.length
  return (handle,
    { store with streams := (key, handle) :: store.streams, objects := store.objects ++ [stream] })

def getStream : Option LiveStream :=
  (store.streams.lookup (streamKey app streamName)).bind fun handle => store.objects[handle]?

def endStream : LiveStreamStore :=
  match store.streams.lookup (streamKey app streamName) with
  | none => store
  | some handle => { store with objects := store.objects.modify handle LiveStream.finish }

def removeStream : Bool × LiveStreamStore :=
  let key := streamKey app streamName
  ((store.streams.lookup key).isSome, { store with streams := store.streams.filter (·.1 ≠ key) })

/-! ## Streams created at the same time

`create_stream` counts the streams before it locks the entry of the new one, and streams are removed
at any time. So the limit holds exactly if no two calls of `create_stream` overlap. -/

/-- The second half of `create_stream`, under the lock. -/
def enterStream (entry : String × LiveStream) : Exec IngestError (Nat × LiveStreamStore) := do
  ensure ((store.streams.lookup entry.1).isNone) (.alreadyExists entry.1)
  let handle := store.objects.length
  return (handle,
    { store with
      streams := (entry.1, handle) :: store.streams
      objects := store.objects ++ [entry.2] })

theorem createStream_eq (segmentDuration partDuration : Float) (llHlsEnabled : Bool) :
    store.createStream app streamName segmentDuration partDuration llHlsEnabled =
      (ensure (store.streams.length < store.maxStreams) (.maxStreams store.maxStreams) >>= fun _ =>
        store.enterStream (streamKey app streamName,
          .new segmentDuration partDuration llHlsEnabled store.maxSegments)) := rfl

def creation : Protocol LiveStreamStore (String × LiveStream) (String × String) where
  check _ store := store.streams.length < store.maxStreams
  act entry store := ((store.enterStream entry).toOption.map (·.2)).getD store
  other key store := (store.removeStream key.1 key.2).2

/-- With at most `n` calls of `create_stream` at a time there are never more streams than allowed.
-/
def WithinLimit (n : Nat) : Prop :=
  ∀ maxSegments maxStreams steps,
    (Race.run creation n steps (new maxSegments maxStreams)).shared.streams.length ≤ maxStreams

theorem creation_act (entry : String × LiveStream) :
    (creation.act entry store).maxStreams = store.maxStreams ∧
      (creation.act entry store).streams.length ≤ store.streams.length + 1 := by
  dsimp only [creation, enterStream, ensure]
  cases store.streams.lookup entry.1 with
  | none => exact ⟨rfl, le_refl (store.streams.length + 1)⟩
  | some => exact ⟨rfl, Nat.le_succ store.streams.length⟩

def twoCalls : List (RaceStep (String × LiveStream) (String × String)) :=
  [.check ("live/a", .new 6.0 1.0 false 1), .check ("live/b", .new 6.0 1.0 false 1), .act 0, .act 0]

theorem withinLimit_iff (n : Nat) : WithinLimit n ↔ n ≤ 1 := by
  constructor
  · intro h
    by_contra hn
    have hboth := h 1 1 twoCalls
    rw [twoCalls, Race.run_both (Nat.not_le.1 hn) rfl rfl] at hboth
    exact absurd hboth (by decide)
  · intro hn maxSegments maxStreams steps
    refine (Race.run_keeps (I := fun s : LiveStreamStore =>
      s.maxStreams = maxStreams ∧ s.streams.length ≤ maxStreams) hn ?_ ?_ ?_ steps
        ⟨rfl, Nat.zero_le _⟩).2
    · intro entry s hcheck hs
      have hroom : s.streams.length < s.maxStreams := of_decide_eq_true hcheck
      obtain ⟨hmax, hlength⟩ := s.creation_act entry
      exact ⟨hmax.trans hs.1, by omega⟩
    · exact fun e s hs => ⟨hs.1, (List.length_filter_le _ _).trans hs.2⟩
    · intro entry e s hcheck
      exact decide_eq_true ((List.length_filter_le _ _).trans_lt (of_decide_eq_true hcheck))

/-- Both calls count no stream, where one is allowed. -/
theorem withinLimit_two_calls :
    (Race.run creation 2 twoCalls (new 1 1)).shared.streams.length = 2 := by
  decide +kernel

end LiveStreamStore

end Nozdormu.Ingest
