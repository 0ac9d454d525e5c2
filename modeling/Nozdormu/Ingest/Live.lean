import Mathlib.Logic.Relation
import Nozdormu.Data.Counter
import Nozdormu.Ingest.Session

/-!
# A live stream and its segmenter

The segmenter numbers segments and parts with its own counters, the stream keeps others, and
players are given both. `Live` puts the two together, as one session runs them: configurations
and frames come in, what the segmenter hands out is applied to the stream, requests register
to wait, and the stream ends at some point, perhaps before the last frame.
-/

namespace Nozdormu.Ingest

open Rust Bmff Packaging Data Relation List

/-- A session's segmenter, the stream it writes to, and how many segments were handed over. -/
structure Live where
  segmenter : LiveSegmenter
  stream : LiveStream
  completed : Nat
deriving DecidableEq, Repr

def Live.start (segmentDuration partDuration : Float) (llHls : Bool) (maxSegments : Nat) : Live :=
  ⟨.new segmentDuration partDuration llHls, .new segmentDuration partDuration llHls maxSegments, 0⟩

/-- A step of the ingest side: under the stream's lock, or on the segmenter alone. -/
inductive IngestStep (p : Profile) : Live → Live → Prop where
  | videoConfig (live : Live) (config : H264Config) :
      IngestStep p live { live with segmenter := live.segmenter.setVideoConfig config }
  | audioConfig (live : Live) (config : AacConfig) :
      IngestStep p live { live with segmenter := live.segmenter.setAudioConfig config }
  | frame {live : Live} {frame : FrameData} {out : SegmenterOutput} {segmenter : LiveSegmenter}
      {stream : LiveStream} (hpush : live.segmenter.pushFrame p frame = .ok (out, segmenter))
      (happly : applySegmenterOutput p live.stream out = .ok stream) :
      IngestStep p live ⟨segmenter, stream, live.completed + out.completedSegment.toList.length⟩
  | finish (live : Live) : IngestStep p live { live with stream := live.stream.finish }

/-- One step of either side: a request registers only for what is not there. -/
inductive LiveStep (p : Profile) : Live → Live → Prop where
  | ingest {live live' : Live} (h : IngestStep p live live') : LiveStep p live live'
  | register {live : Live} {targetMsn : Nat} {targetPart : Option Nat} (sender : Nat)
      (h : live.stream.isReady targetMsn targetPart = false) :
      LiveStep p live { live with stream := live.stream.addWaiter targetMsn targetPart sender }

def Reachable (p : Profile) (segmentDuration partDuration : Float) (llHls : Bool)
    (maxSegments : Nat) (live : Live) : Prop :=
  ReflTransGen (LiveStep p) (.start segmentDuration partDuration llHls maxSegments) live

/-! ## What the stream does with an output -/

variable {p : Profile}

namespace LiveStream

def withInit (s : LiveStream) (init : Option Bytes) : LiveStream := init.elim s s.setInitSegment

section WithInit

variable (s : LiveStream) (init : Option Bytes)

theorem withInit_eq : ∃ data, s.withInit init = { s with initSegment := data } := by
  cases init with
  | none => exact ⟨s.initSegment, rfl⟩
  | some data => exact ⟨some data, rfl⟩

theorem currentParts_withInit : (s.withInit init).currentParts = s.currentParts := by
  obtain ⟨data, h⟩ := s.withInit_eq init
  rw [h]

end WithInit

theorem evict_spec {maxSegments : Nat} : ∀ {segments kept : List LiveSegment}
    {media media' : Nat}, media < 2 ^ 64 → evict p maxSegments segments media = .ok (kept, media') →
    kept = segments.drop (segments.length - maxSegments) ∧
      media' = (media + (segments.length - maxSegments)) % 2 ^ 64 := by
  intro segments
  induction segments with
  | nil =>
    intro kept media media' hm h
    obtain ⟨rfl, rfl⟩ := ok_pair_inj h
    rw [length_nil, Nat.zero_sub, Nat.add_zero, Nat.mod_eq_of_lt hm]
    exact ⟨rfl, rfl⟩
  | cons seg segs ih =>
    intro kept media media' hm h
    unfold evict at h
    split at h
    next hlt =>
      -- the oldest goes, and the counter with it
      obtain ⟨next, hnext, h⟩ := bind_eq_ok.1 h
      obtain ⟨rfl, rfl⟩ := ih (lt_of_add_eq_ok hnext) h
      rw [length_cons] at hlt ⊢
      have hcount : segs.length + 1 - maxSegments = segs.length - maxSegments + 1 := by omega
      rw [hcount, drop_succ_cons, eq_mod_of_add_eq_ok hnext, Nat.mod_add_mod]
      exact ⟨rfl, by congr 1; omega⟩
    next hle =>
      obtain ⟨rfl, rfl⟩ := ok_pair_inj h
      have hzero : (seg :: segs).length - maxSegments = 0 := by omega
      rw [hzero, Nat.add_zero, Nat.mod_eq_of_lt hm]
      exact ⟨rfl, rfl⟩

theorem pushSegment_eq {s s' : LiveStream} {seg : LiveSegment}
    (hm : s.mediaSequence < 2 ^ 64) (h : s.pushSegment p seg = .ok s') :
    ∃ next, (p.add 64 s.nextSequence 1 : Exec IngestError Nat) = .ok next ∧
      s' = notifyWaiters { s with
        segments := (s.segments ++ [seg]).drop (s.segments.length + 1 - s.maxSegments)
        mediaSequence := (s.mediaSequence + (s.segments.length + 1 - s.maxSegments)) % 2 ^ 64
        nextSequence := next, currentParts := [], currentPartSequence := next } := by
  obtain ⟨⟨kept, media⟩, hevict, h⟩ := bind_eq_ok.1 h
  obtain ⟨next, hnext, h⟩ := bind_eq_ok.1 h
  cases h
  obtain ⟨rfl, rfl⟩ := evict_spec hm hevict
  rw [length_append, length_singleton]
  exact ⟨next, hnext, rfl⟩

end LiveStream

/-! ## The joint invariant -/

/-- Segmenter and stream agree on all numbers. -/
structure LiveInv (p : Profile) (live : Live) : Prop where
  /-- parts are cut exactly if they are listed -/
  mode : live.segmenter.llHlsEnabled = live.stream.llHlsEnabled
  noParts : live.segmenter.segmentParts = []
  segmenterNext : live.segmenter.nextSequence = live.completed % 2 ^ 64
  next : live.stream.nextSequence = live.completed % 2 ^ 64
  current : live.stream.currentPartSequence = live.completed % 2 ^ 64
  kept : live.stream.segments.length = min live.completed live.stream.maxSegments
  media : live.stream.mediaSequence = (live.completed - live.stream.segments.length) % 2 ^ 64
  sequences : live.stream.segments.map (·.sequence)
    = counting 64 (live.completed - live.stream.segments.length) live.stream.segments.length
  partIndex : live.segmenter.partIndex = live.stream.currentParts.length % 2 ^ 32
  indices : live.stream.currentParts.map (·.index) = counting 32 0 live.stream.currentParts.length
  /-- a closed segment keeps only the part that was cut with it -/
  lastPart : ∀ seg ∈ live.stream.segments, seg.parts.length ≤ 1 ∧ ∀ part ∈ seg.parts,
    part.index < 2 ^ 32
  /-- without low-latency mode there are no parts -/
  plain : live.stream.llHlsEnabled = false → live.stream.currentParts = []
  /-- with overflow checks no counter has wrapped -/
  checked : p = .dev → live.completed < 2 ^ 64 ∧ live.stream.currentParts.length < 2 ^ 32

theorem liveInv_start (p : Profile) (segmentDuration partDuration : Float) (llHls : Bool)
    (maxSegments : Nat) :
    LiveInv p (.start segmentDuration partDuration llHls maxSegments) where
  mode := rfl
  noParts := rfl
  segmenterNext := rfl
  next := rfl
  current := rfl
  kept := (Nat.zero_min _).symm
  media := rfl
  sequences := rfl
  partIndex := rfl
  indices := rfl
  lastPart := by simp [Live.start, LiveStream.new]
  plain := fun _ => rfl
  checked := fun _ => ⟨Nat.two_pow_pos 64, Nat.two_pow_pos 32⟩

variable {live' : Live}

section Step

variable {p : Profile} {live : Live}

section

variable (h : LiveInv p live)
include h

theorem LiveInv.media_lt : live.stream.mediaSequence < 2 ^ 64 :=
  h.media ▸ Nat.mod_lt _ (Nat.two_pow_pos 64)

theorem LiveInv.kept_le : live.stream.segments.length ≤ live.completed :=
  h.kept ▸ Nat.min_le_left ..

theorem LiveInv.start (frame : FrameData) (init : Option Bytes) :
    LiveInv p ⟨live.segmenter.start frame, live.stream.withInit init, live.completed⟩ := by
  obtain ⟨data, hinit⟩ := live.stream.withInit_eq init
  rw [hinit]
  exact { h with }

theorem LiveInv.addSample (frame : FrameData) (sample : LiveSample) :
    LiveInv p { live with segmenter := live.segmenter.addSample frame sample } := { h with }

theorem LiveInv.stream (waiters : List Waiter) (ended : Bool) :
    LiveInv p { live with stream := { live.stream with waiters, ended } } := { h with }

theorem LiveInv.pushPart {segmenter : LiveSegmenter} {part : CompletedPart}
    (hll : live.segmenter.llHlsEnabled = true) (hcut : live.segmenter.PartCut p part segmenter) :
    LiveInv p { live with segmenter, stream := live.stream.pushPart part } := by
  obtain ⟨n, hn, rfl⟩ := hcut.state
  have hlen : (live.stream.currentParts ++ [part]).length = live.stream.currentParts.length + 1 :=
    by
    rw [length_append, length_singleton]
  exact { h with
    partIndex := by
      show n = (live.stream.currentParts ++ [part]).length % 2 ^ 32
      rw [hlen, eq_mod_of_add_eq_ok hn, h.partIndex, Nat.mod_add_mod]
    indices := by
      show (live.stream.currentParts ++ [part]).map (·.index)
        = counting 32 0 (live.stream.currentParts ++ [part]).length
      rw [hlen, counting_succ, map_append, h.indices, map_singleton, hcut.index, h.partIndex,
        Nat.zero_add]
    plain := fun hplain => by
      rw [h.mode] at hll
      exact absurd (hplain.symm.trans hll) Bool.false_ne_true
    checked := fun hp => by
      subst hp
      obtain ⟨hcompleted, hparts⟩ := h.checked rfl
      refine ⟨hcompleted, ?_⟩
      -- the checked increment of the index bounds the number of parts
      obtain ⟨hlt, -⟩ := dev_add_eq_ok.1 hn
      rw [h.partIndex, Nat.mod_eq_of_lt hparts] at hlt
      exact hlen ▸ hlt }

theorem LiveInv.pushSegment {segmenter : LiveSegmenter} {segment : CompletedSegment}
    {stream : LiveStream} (hcut : live.segmenter.SegmentCut p segment segmenter)
    (hpush : live.stream.pushSegment p segment = .ok stream) :
    LiveInv p ⟨segmenter, stream, live.completed + 1⟩ := by
  obtain ⟨next, hnext, rfl⟩ := LiveStream.pushSegment_eq h.media_lt hpush
  obtain ⟨last, piece, n, hlast, hn, hparts, rfl⟩ := hcut.state
  have hsequence : segment.sequence = live.completed % 2 ^ 64 := hcut.sequence.trans h.segmenterNext
  have hle := h.kept_le
  have hkept := h.kept
  -- how many segments are evicted: at most the oldest one
  obtain ⟨gone, hgone⟩ : ∃ gone, live.stream.segments.length + 1 - live.stream.maxSegments = gone :=
    ⟨_, rfl⟩
  have hlen : ((live.stream.segments ++ [segment]).drop gone).length
      = live.stream.segments.length + 1 - gone := by
    rw [length_drop, length_append, length_singleton]
  rw [hgone]
  have hcounter : ∀ {m : Nat} {k : Nat}, k = live.completed % 2 ^ 64 →
      (p.add 64 k 1 : Exec IngestError Nat) = .ok m → m = (live.completed + 1) % 2 ^ 64 := by
    intro m k hk hm
    rw [eq_mod_of_add_eq_ok hm, hk, Nat.mod_add_mod]
  exact {
    mode := h.mode
    noParts := rfl
    segmenterNext := hcounter h.segmenterNext hn
    next := hcounter h.next hnext
    current := hcounter h.next hnext
    kept := by
      show ((live.stream.segments ++ [segment]).drop gone).length
        = min (live.completed + 1) live.stream.maxSegments
      omega
    media := by
      show (live.stream.mediaSequence + gone) % 2 ^ 64 = _
      rw [h.media, Nat.mod_add_mod]
      show _ = (live.completed + 1 - ((live.stream.segments ++ [segment]).drop gone).length) % 2 ^
        64
      congr 1
      omega
    sequences := by
      show ((live.stream.segments ++ [segment]).drop gone).map (·.sequence)
        = counting 64 (live.completed + 1 - ((live.stream.segments ++ [segment]).drop gone).length)
            ((live.stream.segments ++ [segment]).drop gone).length
      rw [hlen, map_drop, map_append, h.sequences, map_singleton, hsequence]
      exact drop_counting_window hle (by omega)
    partIndex := rfl
    indices := rfl
    lastPart := by
      intro seg hseg
      rcases mem_append.1 (mem_of_mem_drop hseg) with hseg | hseg
      · exact h.lastPart seg hseg
      obtain rfl := mem_singleton.1 hseg
      rw [hparts, h.noParts, nil_append]
      cases hlast with
      | stay => exact ⟨Nat.zero_le 1, nofun⟩
      | cut _ _ hpart =>
        refine ⟨Nat.le_refl 1, fun part hmem => ?_⟩
        rw [mem_singleton.1 hmem, hpart.index, h.partIndex]
        exact Nat.mod_lt _ (Nat.two_pow_pos 32)
    plain := fun _ => rfl
    checked := fun hp => by
      subst hp
      obtain ⟨hlt, -⟩ := dev_add_eq_ok.1 hn
      rw [h.segmenterNext, Nat.mod_eq_of_lt (h.checked rfl).1] at hlt
      exact ⟨hlt, Nat.two_pow_pos 32⟩ }

theorem LiveInv.ingest (hstep : IngestStep p live live') : LiveInv p live' := by
  cases hstep with
  | videoConfig | audioConfig => exact { h with }
  | finish => exact h.stream _ _
  | @frame frame out segmenter stream hpush happly =>
    cases LiveSegmenter.pushed_of_pushFrame hpush with
    | keep =>
      cases happly
      exact (h.start frame _).addSample frame _
    | part _ hends hcut =>
      cases happly
      exact ((h.start frame _).pushPart hends.llHls hcut).addSample frame _
    | segment _ hcut =>
      exact ((h.start frame _).pushSegment hcut happly).addSample frame _

theorem LiveInv.step (hstep : LiveStep p live live') : LiveInv p live' := by
  cases hstep with
  | ingest hstep => exact h.ingest hstep
  | register sender _ => exact h.stream _ _

end

theorem liveInv_of_reachable {segmentDuration partDuration : Float} {llHls : Bool}
    {maxSegments : Nat}
    (h : Reachable p segmentDuration partDuration llHls maxSegments live) : LiveInv p live := by
  induction h with
  | refl => exact liveInv_start ..
  | tail _ hstep ih => exact ih.step hstep

/-! ## What a step does to the stream -/

/-- The three things a step can do to segments and parts. -/
inductive StreamChange (live live' : Live) : Prop where
  | quiet (hsegments : live'.stream.segments = live.stream.segments)
      (hparts : live'.stream.currentParts = live.stream.currentParts)
      (hcompleted : live'.completed = live.completed)
  | part (part : LivePart) (hsegments : live'.stream.segments = live.stream.segments)
      (hparts : live'.stream.currentParts = live.stream.currentParts ++ [part])
      (hcompleted : live'.completed = live.completed)
  | segment (seg : LiveSegment) (hsequence : seg.sequence = live.completed % 2 ^ 64)
      (hsegments : live'.stream.segments = (live.stream.segments ++ [seg]).drop
        (live.stream.segments.length + 1 - live.stream.maxSegments))
      (hparts : live'.stream.currentParts = []) (hcompleted : live'.completed = live.completed + 1)

theorem LiveStep.change (h : LiveInv p live) (hstep : LiveStep p live live') :
    live'.stream.maxSegments = live.stream.maxSegments ∧
      live'.stream.llHlsEnabled = live.stream.llHlsEnabled ∧ StreamChange live live' := by
  rcases hstep with hstep | ⟨sender, _⟩
  case register => exact ⟨rfl, rfl, .quiet rfl rfl rfl⟩
  cases hstep with
  | videoConfig | audioConfig | finish => exact ⟨rfl, rfl, .quiet rfl rfl rfl⟩
  | @frame frame out segmenter stream hpush happly =>
    obtain ⟨data, hinit⟩ := live.stream.withInit_eq live.segmenter.pendingInit
    cases LiveSegmenter.pushed_of_pushFrame hpush with
    | keep =>
      have hstream : stream = { live.stream with initSegment := data } :=
        (Except.ok.inj happly).symm.trans hinit
      subst hstream
      exact ⟨rfl, rfl, .quiet rfl rfl rfl⟩
    | @part part =>
      have hstream : stream = { live.stream with initSegment := data }.pushPart part := by
        rw [← hinit]
        exact (Except.ok.inj happly).symm
      subst hstream
      exact ⟨rfl, rfl, .part part rfl rfl rfl⟩
    | @segment segment _ _ hcut =>
      have happly : (live.stream.withInit live.segmenter.pendingInit).pushSegment p
          segment = .ok stream :=
        happly
      rw [hinit] at happly
      have hm : { live.stream with initSegment := data }.mediaSequence < 2 ^ 64 := h.media_lt
      obtain ⟨next, -, rfl⟩ := LiveStream.pushSegment_eq hm happly
      exact ⟨rfl, rfl, .segment segment (hcut.sequence.trans h.segmenterNext) rfl rfl rfl⟩

end Step

/-! ## Running a stream -/

def Live.push (p : Profile) (live : Live) (frame : FrameData) : Option Live := do
  let (out, segmenter) ← (live.segmenter.pushFrame p frame).toOption
  let stream ← (applySegmenterOutput p live.stream out).toOption
  return ⟨segmenter, stream, live.completed + out.completedSegment.toList.length⟩

/-- Push frames one after the other; stop at an error, or where the check of a step fails. -/
def Live.pushFrames (p : Profile) (check : Live → Live → Bool) (live : Live)
    (frames : List FrameData) :
    Option Live :=
  frames.foldlM (fun live frame => (live.push p frame).filter (check live)) live

theorem step_of_push {live : Live} {frame : FrameData}
    (h : live.push p frame = some live') : IngestStep p live live' := by
  obtain ⟨⟨out, segmenter⟩, hpush, h⟩ := Option.bind_eq_some_iff.1 h
  obtain ⟨stream, happly, h⟩ := Option.bind_eq_some_iff.1 h
  cases h
  exact .frame (eq_ok_of_toOption hpush) (eq_ok_of_toOption happly)

variable {check : Live → Live → Bool} {R : Live → Live → Prop}

theorem exists_path (hR : ∀ live live', IngestStep p live live' →
    check live live' = true → R live live')
    {live : Live} {frames : List FrameData} {q : Live → Bool}
    (h : (live.pushFrames p check frames).any q = true) :
    ∃ live', ReflTransGen R live live' ∧ q live' = true := by
  obtain ⟨live', hrun, hq⟩ := (Option.any_eq_true ..).1 h
  refine ⟨live', ?_, hq⟩
  clear h
  induction frames generalizing live with
  | nil => rw [← Option.some.inj hrun]
  | cons frame frames ih =>
    obtain ⟨mid, hmid, hrun⟩ := Option.bind_eq_some_iff.1 hrun
    obtain ⟨hpush, hcheck⟩ := Option.filter_eq_some_iff.1 hmid
    exact .head (hR live mid (step_of_push hpush) hcheck) (ih hrun)

end Nozdormu.Ingest
