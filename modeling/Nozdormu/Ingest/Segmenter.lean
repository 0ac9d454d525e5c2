import Nozdormu.Ingest.H264
import Nozdormu.Packaging.Fmp4Gen

/-!
# The live segmenter

`cdn-ingest/src/segmenter/mod.rs`: frames go in one by one; init segment, LL-HLS parts and
media segments come out. Every frame is kept twice, for the segment and for the part that
are open, and the two are closed at different moments: the segment at a video keyframe when
enough time has passed, the part when its own time has passed and it has video.
-/

namespace Nozdormu.Ingest

open Rust Bmff Packaging

inductive TrackKind where
  | video
  | audio
deriving DecidableEq, Repr

structure FrameData where
  track : TrackKind
  data : Bytes
  dts : UInt64
  pts : UInt64
  isKeyframe : Bool
deriving DecidableEq, Repr

structure CompletedPart where
  index : Nat
  duration : Float
  data : Bytes
  independent : Bool
deriving DecidableEq, Repr

structure CompletedSegment where
  sequence : Nat
  duration : Float
  data : Bytes
  parts : List CompletedPart
  independent : Bool
deriving DecidableEq, Repr

structure SegmenterOutput where
  initSegment : Option Bytes
  completedParts : List CompletedPart
  completedSegment : Option CompletedSegment
deriving DecidableEq, Repr

/-- The samples collected for the open segment, or for the open part. -/
structure Accumulator where
  videoSamples : List LiveSample
  audioSamples : List LiveSample
  videoBaseDts : UInt64
  audioBaseDts : UInt64
  startDts : Option UInt64
deriving DecidableEq, Repr

/-- Durations are not measured: a sample without one gets 3000 ticks, whatever its track. -/
def computeDurations (samples : List LiveSample) : List LiveSample :=
  samples.map fun s => if s.duration = 0 then { s with duration := 3000 } else s

def secondsOf (samples : List LiveSample) (timescale : UInt32) : Float :=
  samples.foldl (fun acc s => acc + s.duration.toFloat / timescale.toFloat) 0.0

/-- A fragment is independent if its first video sample is a sync sample. -/
def isIndependent (videoSamples : List LiveSample) : Bool :=
  (videoSamples.head?.map (·.isSync)).getD true

namespace Accumulator

def empty : Accumulator := ⟨[], [], 0, 0, none⟩

variable (a : Accumulator)

def mark (dts : UInt64) : Accumulator := { a with startDts := a.startDts.or (some dts) }

/-- The first sample of a track sets its base decode time. -/
def push (frame : FrameData) (sample : LiveSample) : Accumulator :=
  match frame.track with
  | .video =>
    { a with
      videoBaseDts := if a.videoSamples.isEmpty then frame.dts else a.videoBaseDts
      videoSamples := a.videoSamples ++ [sample] }
  | .audio =>
    { a with
      audioBaseDts := if a.audioSamples.isEmpty then frame.dts else a.audioBaseDts
      audioSamples := a.audioSamples ++ [sample] }

def clear : Accumulator :=
  { a with videoSamples := [], audioSamples := [], startDts := none }

/-- The tracks of the fragment; a track that was never configured is left out. -/
def tracks (video : Option H264Config) (audio : Option AacConfig) : List LiveTrackData :=
  (video.map fun _ => ⟨1, a.videoBaseDts, computeDurations a.videoSamples⟩).toList ++
    (audio.map fun _ => ⟨2, a.audioBaseDts, computeDurations a.audioSamples⟩).toList

def elapsed (p : Profile) (a : Accumulator) (dts : UInt64) (timescale : UInt32) :
    Exec IngestError Float :=
  match a.startDts with
  | none => return 0.0
  | some start => do
    let ticks ← p.sub 64 dts.toNat start.toNat
    return (UInt64.ofNat ticks).toFloat / timescale.toFloat

end Accumulator

structure LiveSegmenter where
  videoConfig : Option H264Config
  audioConfig : Option AacConfig
  initSegmentBuilt : Bool
  segmentDuration : Float
  partDuration : Float
  llHlsEnabled : Bool
  nextSequence : Nat
  segment : Accumulator
  part : Accumulator
  partIndex : Nat
  /-- parts of the open segment that were closed together with it -/
  segmentParts : List CompletedPart
deriving DecidableEq, Repr

namespace LiveSegmenter

def new (segmentDuration partDuration : Float) (llHls : Bool) : LiveSegmenter where
  videoConfig := none
  audioConfig := none
  initSegmentBuilt := false
  segmentDuration := segmentDuration
  partDuration := partDuration
  llHlsEnabled := llHls
  nextSequence := 0
  segment := .empty
  part := .empty
  partIndex := 0
  segmentParts := []

def setVideoConfig (s : LiveSegmenter) (config : H264Config) : LiveSegmenter :=
  { s with videoConfig := some config }

def setAudioConfig (s : LiveSegmenter) (config : AacConfig) : LiveSegmenter :=
  { s with audioConfig := some config }

def buildTrackInfos (s : LiveSegmenter) : List LiveTrackInfo :=
  (s.videoConfig.map H264Config.liveTrack).toList ++ (s.audioConfig.map AacConfig.liveTrack).toList

def buildInitSegment (s : LiveSegmenter) : Option Bytes :=
  s.videoConfig.map fun _ => generateInitSegmentFromLiveTracks s.buildTrackInfos 1000

/-- The timescale a frame's track has, or is taken to have. -/
def timescaleOf (s : LiveSegmenter) : TrackKind → UInt32
  | .video => (s.videoConfig.map (·.timescale)).getD 90000
  | .audio => (s.audioConfig.map (·.timescale)).getD 48000

/-- The fragment's number: 1000 per segment, then the part. -/
def partSequence (p : Profile) (s : LiveSegmenter) : Exec IngestError Nat := do
  p.add 32 (← p.add 32 (← p.mul 32 (s.nextSequence % 2 ^ 32) 1000) s.partIndex) 1

variable (p : Profile) (s : LiveSegmenter) (timescale : UInt32)

def cutPart : Exec IngestError (Option CompletedPart × LiveSegmenter) := do
  if s.part.videoSamples = [] ∧ s.part.audioSamples = [] then return (none, s)
  else
    let videoSamples := computeDurations s.part.videoSamples
    let seq ← s.partSequence p
    let data ← generateLiveMediaSegment p (UInt32.ofNat seq)
        (s.part.tracks s.videoConfig s.audioConfig)
    let partIndex ← p.add 32 s.partIndex 1
    return (some { index := s.partIndex, duration := secondsOf videoSamples timescale, data
                   independent := isIndependent videoSamples },
      { s with part := s.part.clear, partIndex })

/-- The rest of the open part is closed first, but only if it has video. -/
def cutLastPart : Exec IngestError (Option CompletedPart × LiveSegmenter) :=
  if s.llHlsEnabled ∧ s.part.videoSamples ≠ [] then s.cutPart p timescale else return (none, s)

def cutSegment : Exec IngestError (CompletedSegment × LiveSegmenter) := do
  let (lastPart, s) ← s.cutLastPart p timescale
  let videoSamples := computeDurations s.segment.videoSamples
  let data ← generateLiveMediaSegment p (UInt32.ofNat s.nextSequence)
    (s.segment.tracks s.videoConfig s.audioConfig)
  let nextSequence ← p.add 64 s.nextSequence 1
  return ({ sequence := s.nextSequence, duration := secondsOf videoSamples timescale, data
            parts := s.segmentParts ++ lastPart.toList, independent := isIndependent videoSamples },
    { s with nextSequence, segment := s.segment.clear, partIndex := 0, segmentParts := [] })

/-! ### Pushing a frame -/

/-- The init segment is handed out with the first frame behind the video configuration, and
open accumulators start at the frame. -/
def start (s : LiveSegmenter) (frame : FrameData) : LiveSegmenter :=
  { s with
    initSegmentBuilt := s.initSegmentBuilt || s.videoConfig.isSome
    segment := s.segment.mark frame.dts
    part := s.part.mark frame.dts }

/-- The init segment that is handed out with the next frame. -/
def pendingInit (s : LiveSegmenter) : Option Bytes :=
  if s.initSegmentBuilt then none else s.buildInitSegment

def ctsOffset (p : Profile) (frame : FrameData) : Exec IngestError Int32 :=
  return Int32.ofInt (← p.signed 64 (frame.pts.toInt64.toInt - frame.dts.toInt64.toInt))

/-- A segment ends before a video keyframe, if it has video and is long enough. -/
def cutsSegment (s : LiveSegmenter) (frame : FrameData) (elapsed : Float) : Bool :=
  frame.track = .video ∧ frame.isKeyframe ∧ s.segment.startDts.isSome ∧
    s.segment.videoSamples ≠ [] ∧ s.segmentDuration ≤ elapsed

def closeSegment (p : Profile) (s : LiveSegmenter) (frame : FrameData) (timescale : UInt32) :
    Exec IngestError (Option CompletedSegment × LiveSegmenter) := do
  let elapsed ← s.segment.elapsed p frame.dts timescale
  if s.cutsSegment frame elapsed then
    let (segment, s) ← s.cutSegment p timescale
    return (some segment, s)
  else return (none, s)

def closePart (p : Profile) (s : LiveSegmenter) (frame : FrameData) (timescale : UInt32) :
    Exec IngestError (Option CompletedPart × LiveSegmenter) := do
  if s.llHlsEnabled then
    let elapsed ← s.part.elapsed p frame.dts timescale
    if s.partDuration ≤ elapsed ∧ s.part.videoSamples ≠ [] then s.cutPart p timescale
    else return (none, s)
  else return (none, s)

def addSample (s : LiveSegmenter) (frame : FrameData) (sample : LiveSample) : LiveSegmenter :=
  { s with segment := s.segment.push frame sample, part := s.part.push frame sample }

def pushFrame (p : Profile) (s : LiveSegmenter) (frame : FrameData) :
    Exec IngestError (SegmenterOutput × LiveSegmenter) := do
  let initSegment := s.pendingInit
  let s := s.start frame
  let timescale := s.timescaleOf frame.track
  let sample : LiveSample := ⟨frame.data, 0, frame.isKeyframe, ← ctsOffset p frame⟩
  let (completedSegment, s) ← s.closeSegment p frame timescale
  let (completedPart, s) ← s.closePart p frame timescale
  return ({ initSegment, completedParts := completedPart.toList, completedSegment },
    s.addSample frame sample)

end LiveSegmenter

/-! ## What a pushed frame can do -/

def FrameData.offset (frame : FrameData) : Int32 :=
  Int32.ofInt (frame.pts.toInt64.toInt - frame.dts.toInt64.toInt)

/-- The sample a frame becomes; its duration is not known yet. -/
def FrameData.sample (frame : FrameData) : LiveSample :=
  ⟨frame.data, 0, frame.isKeyframe, frame.offset⟩

namespace LiveSegmenter

variable {p : Profile} {s s' : LiveSegmenter} {frame : FrameData} {timescale : UInt32}

structure PartCut (p : Profile) (s : LiveSegmenter) (part : CompletedPart) (s' : LiveSegmenter) :
    Prop where
  index : part.index = s.partIndex
  data : ∃ seq, (generateLiveMediaSegment p seq (s.part.tracks s.videoConfig s.audioConfig) :
    Exec IngestError Bytes) = .ok part.data
  state : ∃ n, (p.add 32 s.partIndex 1 : Exec IngestError Nat) = .ok n ∧
    s' = { s with part := s.part.clear, partIndex := n }

/-- What happens to the open part when its segment is closed. -/
inductive LastPart (p : Profile) (s : LiveSegmenter) : Option CompletedPart →
    Accumulator → Prop where
  | cut {part : CompletedPart} {s' : LiveSegmenter} (hll : s.llHlsEnabled = true)
      (hvideo : s.part.videoSamples ≠ []) (h : PartCut p s part s') :
      LastPart p s (some part) s.part.clear
  | stay (h : s.llHlsEnabled = true → s.part.videoSamples = []) : LastPart p s none s.part

structure SegmentCut (p : Profile) (s : LiveSegmenter) (segment : CompletedSegment)
    (s' : LiveSegmenter) : Prop where
  sequence : segment.sequence = s.nextSequence
  data : (generateLiveMediaSegment p (UInt32.ofNat s.nextSequence)
    (s.segment.tracks s.videoConfig s.audioConfig) : Exec IngestError Bytes) = .ok segment.data
  state : ∃ last open' n, LastPart p s last open' ∧
    (p.add 64 s.nextSequence 1 : Exec IngestError Nat) = .ok n ∧
    segment.parts = s.segmentParts ++ last.toList ∧
    s' = { s with
      nextSequence := n, segment := s.segment.clear, part := open', partIndex := 0
      segmentParts := [] }

/-- The frame ends the open segment: it is a video keyframe, the segment has video, and it has
lasted long enough. -/
def EndsSegment (p : Profile) (s : LiveSegmenter) (frame : FrameData) : Prop :=
  ∃ elapsed, (s.start frame).segment.elapsed p frame.dts ((s.start frame).timescaleOf frame.track)
      = .ok elapsed ∧
    (s.start frame).cutsSegment frame elapsed = true

/-- The frame ends the open part: it has video and has lasted long enough. -/
structure EndsPart (p : Profile) (s : LiveSegmenter) (frame : FrameData) : Prop where
  llHls : s.llHlsEnabled = true
  video : s.part.videoSamples ≠ []
  due : ∃ elapsed, (s.start frame).part.elapsed p frame.dts
    ((s.start frame).timescaleOf frame.track)
      = .ok elapsed ∧ s.partDuration ≤ elapsed

/-- The three things a pushed frame can do. -/
inductive Pushed (p : Profile) (s : LiveSegmenter) (frame : FrameData) :
    SegmenterOutput → LiveSegmenter → Prop where
  | keep (hsegment : ¬ s.EndsSegment p frame) (hpart : ¬ s.EndsPart p frame) :
      Pushed p s frame ⟨s.pendingInit, [], none⟩ ((s.start frame).addSample frame frame.sample)
  | part {part : CompletedPart} {s' : LiveSegmenter} (hsegment : ¬ s.EndsSegment p frame)
      (hpart : s.EndsPart p frame) (h : PartCut p (s.start frame) part s') :
      Pushed p s frame ⟨s.pendingInit, [part], none⟩ (s'.addSample frame frame.sample)
  | segment {segment : CompletedSegment} {s' : LiveSegmenter} (hends : s.EndsSegment p frame)
      (h : SegmentCut p (s.start frame) segment s') :
      Pushed p s frame ⟨s.pendingInit, [], some segment⟩ (s'.addSample frame frame.sample)

variable {out : SegmenterOutput}

theorem Pushed.settings_eq (h : Pushed p s frame out s') :
    out.initSegment = s.pendingInit ∧ s'.videoConfig = s.videoConfig ∧
      s'.audioConfig = s.audioConfig ∧ s'.segmentDuration = s.segmentDuration ∧
      s'.llHlsEnabled = s.llHlsEnabled := by
  cases h with
  | keep => exact ⟨rfl, rfl, rfl, rfl, rfl⟩
  | part _ _ hcut =>
    obtain ⟨n, -, rfl⟩ := hcut.state
    exact ⟨rfl, rfl, rfl, rfl, rfl⟩
  | segment _ hcut =>
    obtain ⟨last, open', n, -, -, -, rfl⟩ := hcut.state
    exact ⟨rfl, rfl, rfl, rfl, rfl⟩

theorem offset_of_ctsOffset {c : Int32} (h : ctsOffset p frame = .ok c) : c = frame.offset := by
  obtain ⟨v, hv, h⟩ := bind_eq_ok.1 h
  cases h
  unfold Profile.signed at hv
  split at hv
  · rw [← Except.ok.inj hv]; rfl
  cases p with
  | dev => cases hv
  | release =>
    -- the cast to 32 bits does not see a wrap at 64
    have hdvd : 2 ^ 32 ∣ 2 ^ 64 := ⟨2 ^ 32, by decide⟩
    rw [← Except.ok.inj hv, Int32.ofInt_eq_iff_bmod_eq_toInt, Int.bmod_bmod_of_dvd hdvd]
    exact Int32.toInt_ofInt.symm

theorem partCut_of_cutPart {r : Option CompletedPart} (hvideo : s.part.videoSamples ≠ [])
    (h : s.cutPart p timescale = .ok (r, s')) : ∃ part, r = some part ∧ PartCut p s part s' := by
  rw [cutPart, if_neg (fun hempty => hvideo hempty.1)] at h
  obtain ⟨seq, -, h⟩ := bind_eq_ok.1 h
  obtain ⟨data, hdata, h⟩ := bind_eq_ok.1 h
  obtain ⟨n, hn, h⟩ := bind_eq_ok.1 h
  obtain ⟨rfl, rfl⟩ := ok_pair_inj h
  exact ⟨_, rfl, rfl, ⟨_, hdata⟩, n, hn, rfl⟩

theorem segmentCut_of_cutSegment {segment : CompletedSegment}
    (h : s.cutSegment p timescale = .ok (segment, s')) : SegmentCut p s segment s' := by
  obtain ⟨⟨last, mid⟩, hlast, h⟩ := bind_eq_ok.1 h
  obtain ⟨data, hdata, h⟩ := bind_eq_ok.1 h
  obtain ⟨n, hn, h⟩ := bind_eq_ok.1 h
  obtain ⟨rfl, rfl⟩ := ok_pair_inj h
  unfold cutLastPart at hlast
  split at hlast
  next hcut =>
    obtain ⟨part, rfl, hpart⟩ := partCut_of_cutPart hcut.2 hlast
    obtain ⟨k, -, rfl⟩ := hpart.state
    exact ⟨rfl, hdata, _, _, n, .cut hcut.1 hcut.2 hpart, hn, rfl, rfl⟩
  next hstay =>
    obtain ⟨rfl, rfl⟩ := ok_pair_inj hlast
    refine ⟨rfl, hdata, _, _, n, .stay fun hll => ?_, hn, rfl, rfl⟩
    exact Decidable.not_not.1 fun hne => hstay ⟨hll, hne⟩

theorem closePart_of_segmentCut {segment : CompletedSegment} {r : Option CompletedPart}
    {mid : LiveSegmenter} (hcut : SegmentCut p s segment mid)
    (h : mid.closePart p frame timescale = .ok (r, s')) : r = none ∧ s' = mid := by
  obtain ⟨last, open', n, hlast, -, -, rfl⟩ := hcut.state
  have hvideo : s.llHlsEnabled = true → open'.videoSamples = [] := by
    intro hll
    cases hlast with
    | cut => rfl
    | stay hstay => exact hstay hll
  unfold closePart at h
  split at h
  next hll =>
    obtain ⟨elapsed, -, h⟩ := bind_eq_ok.1 h
    rw [if_neg (fun hdue => hdue.2 (hvideo hll))] at h
    obtain ⟨rfl, rfl⟩ := ok_pair_inj h
    exact ⟨rfl, rfl⟩
  next =>
    obtain ⟨rfl, rfl⟩ := ok_pair_inj h
    exact ⟨rfl, rfl⟩

theorem pushed_of_pushFrame (h : s.pushFrame p frame = .ok (out, s')) :
    Pushed p s frame out s' := by
  simp only [pushFrame, bind_eq_ok] at h
  obtain ⟨cts, hcts, ⟨segment, mid⟩, hsegment, ⟨part, mid'⟩, hpart, h⟩ := h
  obtain ⟨rfl, rfl⟩ := ok_pair_inj h
  obtain rfl := offset_of_ctsOffset hcts
  obtain ⟨elapsed, helapsed, hsegment⟩ := bind_eq_ok.1 hsegment
  split at hsegment
  next hends =>
    obtain ⟨⟨segment', mid''⟩, hcut, hsegment⟩ := bind_eq_ok.1 hsegment
    obtain ⟨rfl, rfl⟩ := ok_pair_inj hsegment
    have hcut := segmentCut_of_cutSegment hcut
    -- behind a closed segment there is no video for a part
    obtain ⟨rfl, rfl⟩ := closePart_of_segmentCut hcut hpart
    exact .segment ⟨elapsed, helapsed, hends⟩ hcut
  next hstays =>
    obtain ⟨rfl, rfl⟩ := ok_pair_inj hsegment
    have hsegment : ¬ s.EndsSegment p frame := by
      rintro ⟨elapsed', helapsed', hends⟩
      obtain rfl := ok_unique helapsed helapsed'
      exact hstays hends
    unfold closePart at hpart
    split at hpart
    next hll =>
      obtain ⟨elapsed', helapsed', hpart⟩ := bind_eq_ok.1 hpart
      split at hpart
      next hdue =>
        obtain ⟨part', rfl, hcut⟩ := partCut_of_cutPart hdue.2 hpart
        exact .part hsegment ⟨hll, hdue.2, elapsed', helapsed', hdue.1⟩ hcut
      next hnot =>
        obtain ⟨rfl, rfl⟩ := ok_pair_inj hpart
        refine .keep hsegment fun hends => ?_
        obtain ⟨elapsed'', helapsed'', hdue⟩ := hends.due
        obtain rfl := ok_unique helapsed' helapsed''
        exact hnot ⟨hdue, hends.video⟩
    next hll =>
      obtain ⟨rfl, rfl⟩ := ok_pair_inj hpart
      exact .keep hsegment fun hends => hll hends.llHls

/-! ### Without overflow checks every frame goes through -/

variable (s : LiveSegmenter)

theorem returns_cutPart_release (timescale : UInt32) : Returns (s.cutPart .release timescale) := by
  unfold cutPart
  split
  · exact ⟨_, rfl⟩
  have hseq : Returns (s.partSequence .release) := by
    refine (returns_release_mul ..).bind fun _ _ => ?_
    exact (returns_release_add ..).bind fun _ _ => returns_release_add ..
  refine hseq.bind fun _ _ => (returns_generateLiveMediaSegment_release ..).bind fun _ _ => ?_
  exact (returns_release_add ..).bind fun _ _ => ⟨_, rfl⟩

theorem returns_cutSegment_release (timescale : UInt32) :
    Returns (s.cutSegment .release timescale) := by
  have hlast : Returns (s.cutLastPart .release timescale) := by
    unfold cutLastPart
    split
    · exact returns_cutPart_release s timescale
    · exact ⟨_, rfl⟩
  refine hlast.bind fun _ _ => (returns_generateLiveMediaSegment_release ..).bind fun _ _ => ?_
  exact (returns_release_add ..).bind fun _ _ => ⟨_, rfl⟩

theorem returns_elapsed_release (a : Accumulator) (dts : UInt64) (timescale : UInt32) :
    Returns (a.elapsed .release dts timescale) := by
  unfold Accumulator.elapsed
  split
  · exact ⟨_, rfl⟩
  · exact (returns_release_sub ..).bind fun _ _ => ⟨_, rfl⟩

theorem returns_pushFrame_release (frame : FrameData) : Returns (s.pushFrame .release frame) := by
  have hcts : Returns (ctsOffset .release frame) := by
    have hsigned : Returns (Profile.release.signed 64
        (frame.pts.toInt64.toInt - frame.dts.toInt64.toInt) : Exec IngestError Int) := by
      unfold Profile.signed
      split <;> exact ⟨_, rfl⟩
    exact hsigned.bind fun _ _ => ⟨_, rfl⟩
  have hsegment : ∀ (s : LiveSegmenter) timescale,
      Returns (s.closeSegment .release frame timescale) := by
    intro s timescale
    refine (returns_elapsed_release ..).bind fun _ _ => ?_
    split
    · exact (returns_cutSegment_release ..).bind fun _ _ => ⟨_, rfl⟩
    · exact ⟨_, rfl⟩
  have hpart : ∀ (s : LiveSegmenter) timescale, Returns (s.closePart .release frame timescale) := by
    intro s timescale
    unfold closePart
    split
    · refine (returns_elapsed_release ..).bind fun _ _ => ?_
      split
      · exact returns_cutPart_release ..
      · exact ⟨_, rfl⟩
    · exact ⟨_, rfl⟩
  refine hcts.bind fun _ _ => (hsegment ..).bind fun _ _ => (hpart ..).bind fun _ _ => ⟨_, rfl⟩

end LiveSegmenter

end Nozdormu.Ingest
