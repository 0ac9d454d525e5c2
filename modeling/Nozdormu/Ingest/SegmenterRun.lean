import Mathlib.Algebra.Order.BigOperators.Group.List
import Nozdormu.Data.Counter
import Nozdormu.Data.Grouping
import Nozdormu.Ingest.Segmenter
import Nozdormu.Packaging.Playback

/-!
# Runs of the segmenter

What the segmenter is for: it cuts the pushed frames into consecutive groups, one for each
segment, and each group into the groups of its parts (`Grouping`). `Follows` relates a grouping
to the segmenter's state and to everything it has handed out; a pushed frame takes one to the
next (`Follows.pushed`), so every run has its grouping (`exists_grouping`).
-/

namespace Nozdormu.Ingest

open Rust Bmff Packaging Data List

/-- A run from `init`, each of whose steps meets `C`: the frames that were pushed, what came
out, and the state after them. -/
inductive SegmenterRun (p : Profile) (C : LiveSegmenter → FrameData → Prop) (init : LiveSegmenter) :
    List FrameData → List SegmenterOutput → LiveSegmenter → Prop where
  | nil : SegmenterRun p C init [] [] init
  | push {frames : List FrameData} {outs : List SegmenterOutput} {s s' : LiveSegmenter}
      {frame : FrameData} {out : SegmenterOutput} (hrun : SegmenterRun p C init frames outs s)
      (hC : C s frame) (hpush : s.pushFrame p frame = .ok (out, s')) :
      SegmenterRun p C init (frames ++ [frame]) (outs ++ [out]) s'

/-- A segmenter whose two configurations are set before the first frame. -/
def configured (segmentDuration partDuration : Float) (llHls : Bool) (video : H264Config)
    (audio : AacConfig) : LiveSegmenter :=
  ((LiveSegmenter.new segmentDuration partDuration llHls).setVideoConfig video).setAudioConfig audio

/-- The closed segments, each with the parts handed out while it was open or with it; then the
parts of the segment that is still open. -/
abbrev Collected := List (CompletedSegment × List CompletedPart) × List CompletedPart

/-- A part that comes out with a segment is behind it. -/
def collect (c : Collected) (out : SegmenterOutput) : Collected :=
  match out.completedSegment with
  | none => (c.1, c.2 ++ out.completedParts)
  | some segment => (c.1 ++ [(segment, c.2 ++ segment.parts)], out.completedParts)

def collected (outs : List SegmenterOutput) : Collected := outs.foldl collect ([], [])

theorem collected_concat (outs : List SegmenterOutput) (out : SegmenterOutput) :
    collected (outs ++ [out]) = collect (collected outs) out := by
  rw [collected, foldl_append]
  rfl

/-! ## Accumulators hold frames -/

def trackFrames (kind : TrackKind) (frames : List FrameData) : List FrameData :=
  frames.filter (·.track = kind)

theorem trackFrames_append (kind : TrackKind) (l r : List FrameData) :
    trackFrames kind (l ++ r) = trackFrames kind l ++ trackFrames kind r := filter_append ..

variable {kind : TrackKind} {frame : FrameData}

theorem trackFrames_self (h : frame.track = kind) : trackFrames kind [frame] = [frame] := by
  simp [trackFrames, h]

theorem trackFrames_other (h : frame.track ≠ kind) : trackFrames kind [frame] = [] := by
  simp [trackFrames, h]

theorem trackFrames_concat_self (h : frame.track = kind) (frames : List FrameData) :
      trackFrames kind (frames ++ [frame]) = trackFrames kind frames ++ [frame] := by
  rw [trackFrames_append, trackFrames_self h]

theorem trackFrames_concat_other (h : frame.track ≠ kind)
    (frames : List FrameData) : trackFrames kind (frames ++ [frame]) = trackFrames kind frames := by
  rw [trackFrames_append, trackFrames_other h, append_nil]

variable {frames : List FrameData}

theorem forall_mem_trackFrames {P : FrameData → Prop} : (∀ f ∈ frames, P f) ↔
      (∀ f ∈ trackFrames .video frames, P f) ∧ ∀ f ∈ trackFrames .audio frames, P f := by
  constructor
  · intro h
    exact ⟨fun f hf => h f (mem_filter.1 hf).1, fun f hf => h f (mem_filter.1 hf).1⟩
  · rintro ⟨hv, ha⟩ f hf
    cases htrack : f.track with
    | video => exact hv f (mem_filter.2 ⟨hf, decide_eq_true htrack⟩)
    | audio => exact ha f (mem_filter.2 ⟨hf, decide_eq_true htrack⟩)

/-- The accumulator has the samples of the frames, and each track's first decode time. -/
structure Accumulator.Holds (a : Accumulator) (frames : List FrameData) : Prop where
  video : a.videoSamples = (trackFrames .video frames).map FrameData.sample
  audio : a.audioSamples = (trackFrames .audio frames).map FrameData.sample
  videoBase : ∀ f ∈ (trackFrames .video frames).head?, a.videoBaseDts = f.dts
  audioBase : ∀ f ∈ (trackFrames .audio frames).head?, a.audioBaseDts = f.dts

variable {l : List FrameData}

section Holds

variable {a : Accumulator} {frames : List FrameData}

theorem Accumulator.holds_empty : Accumulator.empty.Holds [] := ⟨rfl, rfl, nofun, nofun⟩

theorem Accumulator.Holds.mark (h : a.Holds frames) (dts : UInt64) : (a.mark dts).Holds frames :=
  ⟨h.video, h.audio, h.videoBase, h.audioBase⟩

theorem Accumulator.holds_clear (a : Accumulator) : a.clear.Holds [] := ⟨rfl, rfl, nofun, nofun⟩

theorem base_concat {base : UInt64} (hbase : ∀ f ∈ l.head?, base = f.dts) (frame : FrameData) :
    ∀ f ∈ (l ++ [frame]).head?,
    (if l.map FrameData.sample = [] then frame.dts else base) = f.dts := by
  intro f hf
  cases l with
  | nil =>
    cases hf
    rfl
  | cons a l => exact hbase f hf

theorem Accumulator.Holds.push (h : a.Holds frames) (frame : FrameData) :
    (a.push frame frame.sample).Holds (frames ++ [frame]) := by
  unfold Accumulator.push
  cases htrack : frame.track with
  | video =>
    have hv := trackFrames_concat_self htrack frames
    have ha : trackFrames .audio (frames ++ [frame]) = trackFrames .audio frames :=
      trackFrames_concat_other (by rw [htrack]; decide) frames
    refine ⟨?_, by rw [ha]; exact h.audio, ?_, by rw [ha]; exact h.audioBase⟩
    · rw [hv, List.map_append, ← h.video]
      rfl
    · rw [hv]
      simp only [List.isEmpty_iff, h.video]
      exact base_concat h.videoBase frame
  | audio =>
    have ha := trackFrames_concat_self htrack frames
    have hv : trackFrames .video (frames ++ [frame]) = trackFrames .video frames :=
      trackFrames_concat_other (by rw [htrack]; decide) frames
    refine ⟨by rw [hv]; exact h.video, ?_, by rw [hv]; exact h.videoBase, ?_⟩
    · rw [ha, List.map_append, ← h.audio]
      rfl
    · rw [ha]
      simp only [List.isEmpty_iff, h.audio]
      exact base_concat h.audioBase frame

end Holds

/-! ## Fragments made of frames -/

/-- The sample as it is written: with the fixed duration. -/
def FrameData.timed (frame : FrameData) : LiveSample := { frame.sample with duration := 3000 }

theorem computeDurations_samples (frames : List FrameData) :
    computeDurations (frames.map FrameData.sample) = frames.map FrameData.timed := by
  rw [computeDurations, map_map]
  rfl

def TrackKind.trackId : TrackKind → UInt32
  | .video => 1
  | .audio => 2

/-- The track of a fragment that is made of these frames. -/
structure TrackOf (kind : TrackKind) (frames : List FrameData) (t : LiveTrackData) : Prop where
  trackId : t.trackId = kind.trackId
  samples : t.samples = (trackFrames kind frames).map FrameData.timed
  base : ∀ f ∈ (trackFrames kind frames).head?, t.baseDts = f.dts

def IsFragment (p : Profile) (frames : List FrameData) (data : Bytes) : Prop :=
  ∃ seq video audio, TrackOf .video frames video ∧ TrackOf .audio frames audio ∧
    (generateLiveMediaSegment p seq [video, audio] : Exec IngestError Bytes) = .ok data

variable {p : Profile}

section TrackData

variable {a : Accumulator} {frames : List FrameData}

theorem Accumulator.Holds.videoTrack (h : a.Holds frames) :
    TrackOf .video frames ⟨1, a.videoBaseDts, computeDurations a.videoSamples⟩ :=
  ⟨rfl, by rw [h.video]; exact computeDurations_samples _, h.videoBase⟩

theorem Accumulator.Holds.audioTrack (h : a.Holds frames) :
    TrackOf .audio frames ⟨2, a.audioBaseDts, computeDurations a.audioSamples⟩ :=
  ⟨rfl, by rw [h.audio]; exact computeDurations_samples _, h.audioBase⟩

theorem Accumulator.Holds.isFragment {video : Option H264Config}
    {audio : Option AacConfig} {seq : UInt32} {data : Bytes} (h : a.Holds frames)
    (hv : video.isSome = true) (ha : audio.isSome = true)
    (hdata : (generateLiveMediaSegment p seq (a.tracks video audio) : Exec IngestError Bytes)
      = .ok data) : IsFragment p frames data := by
  obtain ⟨vc, rfl⟩ := Option.isSome_iff_exists.1 hv
  obtain ⟨ac, rfl⟩ := Option.isSome_iff_exists.1 ha
  exact ⟨seq, _, _, h.videoTrack, h.audioTrack, hdata⟩

end TrackData

/-! ## The grouping behind a run -/

/-- Parts made of these groups of frames, numbered from 0. -/
structure PartsOf (p : Profile) (groups : List (List FrameData)) (parts : List CompletedPart) :
    Prop where
  fragments : List.Forall₂ (fun g part => IsFragment p g part.data) groups parts
  indices : parts.map (·.index) = counting 32 0 parts.length

variable {part : CompletedPart}

theorem PartsOf.concat {groups : List (List FrameData)} {parts : List CompletedPart}
    {group : List FrameData} (h : PartsOf p groups parts)
    (hpart : IsFragment p group part.data) (hindex : part.index = groups.length % 2 ^ 32) :
    PartsOf p (groups ++ [group]) (parts ++ [part]) := by
  have hlen := h.fragments.length_eq
  refine ⟨rel_append h.fragments (.cons hpart .nil), ?_⟩
  rw [map_append, h.indices, length_append, length_singleton, counting_succ,
    map_singleton, hindex, hlen, Nat.zero_add]

/-- A closed segment and its parts are made of a group and its pieces. -/
structure SegmentOf (p : Profile) (group : ClosedGroup FrameData)
    (x : CompletedSegment × List CompletedPart) : Prop where
  fragment : IsFragment p group.items x.1.data
  parts : PartsOf p group.pieces x.2

/-- The grouping `g` is what the segmenter in state `s` has made of its frames so far. -/
structure Follows (p : Profile) (g : Grouping FrameData) (outs : List SegmenterOutput)
    (s : LiveSegmenter) : Prop where
  video : s.videoConfig.isSome = true
  audio : s.audioConfig.isSome = true
  noParts : s.segmentParts = []
  sequence : s.nextSequence = g.closed.length % 2 ^ 64
  partIndex : s.partIndex = g.pieces.length % 2 ^ 32
  segment : s.segment.Holds g.items
  part : s.part.Holds g.piece
  closed : List.Forall₂ (SegmentOf p) g.closed (collected outs).1
  numbers : (collected outs).1.map (·.1.sequence) = counting 64 0 g.closed.length
  parts : PartsOf p g.pieces (collected outs).2

section Follows

variable {p : Profile} {g : Grouping FrameData} {outs : List SegmenterOutput} {s s' : LiveSegmenter}
  {frame : FrameData}

section

variable (h : Follows p g outs s)
include h

theorem Follows.start (frame : FrameData) : Follows p g outs (s.start frame) :=
  { h with segment := h.segment.mark _, part := h.part.mark _ }

theorem Follows.addSample (frame : FrameData) :
    Follows p (g.push frame) outs (s.addSample frame frame.sample) :=
  { h with segment := h.segment.push frame, part := h.part.push frame }

theorem Follows.concat (init : Option Bytes) : Follows p g (outs ++ [⟨init, [], none⟩]) s := by
  have hsame : collected (outs ++ [⟨init, [], none⟩]) = collected outs := by
    rw [collected_concat, collect, append_nil]
  exact { h with
    closed := by rw [hsame]; exact h.closed
    numbers := by rw [hsame]; exact h.numbers
    parts := by rw [hsame]; exact h.parts }

theorem Follows.partOf
    (hcut : s.PartCut p part s') :
      PartsOf p (g.pieces ++ [g.piece]) ((collected outs).2 ++ [part]) := by
  obtain ⟨seq, hdata⟩ := hcut.data
  exact h.parts.concat (h.part.isFragment h.video h.audio hdata) (hcut.index.trans h.partIndex)

theorem Follows.cutPart (hcut : s.PartCut p part s')
    (init : Option Bytes) : Follows p g.cutPiece (outs ++ [⟨init, [part], none⟩]) s' := by
  have hcollect : collected (outs ++ [⟨init, [part], none⟩])
      = ((collected outs).1, (collected outs).2 ++ [part]) := collected_concat ..
  have hparts := h.partOf hcut
  obtain ⟨n, hn, rfl⟩ := hcut.state
  exact { h with
    partIndex := by
      show n = (g.pieces ++ [g.piece]).length % 2 ^ 32
      rw [eq_mod_of_add_eq_ok hn, h.partIndex, Nat.mod_add_mod, length_append,
        length_singleton]
    part := Accumulator.holds_clear _
    closed := by rw [hcollect]; exact h.closed
    numbers := by rw [hcollect]; exact h.numbers
    parts := by rw [hcollect]; exact hparts }

end

/-- The open part is closed with the segment if it has video. -/
def closeLast (g : Grouping FrameData) (last : Option CompletedPart) : Grouping FrameData :=
  (last.elim g fun _ => g.cutPiece).cutGroup

theorem closed_closeLast (g : Grouping FrameData) (last : Option CompletedPart) :
    (closeLast g last).closed
      = g.closed ++ [⟨g.items, (last.elim g fun _ => g.cutPiece).pieces⟩] := by
  cases last with
  | none | some => rfl

theorem Follows.cutSegment {segment : CompletedSegment} {last : Option CompletedPart}
    {piece : Accumulator} {n : Nat} (h : Follows p g outs s) (hcut : s.SegmentCut p segment s')
    (hlast : s.LastPart p last piece)
    (hn : (p.add 64 s.nextSequence 1 : Exec IngestError Nat) = .ok n)
    (hparts : segment.parts = s.segmentParts ++ last.toList) (init : Option Bytes) :
    Follows p (closeLast g last) (outs ++ [⟨init, [], some segment⟩])
      { s with
        nextSequence := n, segment := s.segment.clear, part := piece, partIndex := 0
        segmentParts := [] } := by
  rw [h.noParts, nil_append] at hparts
  have hcollect : collected (outs ++ [⟨init, [], some segment⟩])
      = ((collected outs).1 ++ [(segment, (collected outs).2 ++ last.toList)], []) := by
    rw [collected_concat, ← hparts]
    rfl
  -- the groups that the segment's parts are made of, and what stays open
  obtain ⟨hpieces, hpiece⟩ : PartsOf p (last.elim g fun _ => g.cutPiece).pieces
        ((collected outs).2 ++ last.toList) ∧
      piece.Holds (last.elim g fun _ => g.cutPiece).piece := by
    cases hlast with
    | cut _ _ hpart => exact ⟨h.partOf hpart, Accumulator.holds_clear _⟩
    | stay => exact ⟨by rw [Option.toList_none, append_nil]; exact h.parts, h.part⟩
  have hsegment : SegmentOf p ⟨g.items, (last.elim g fun _ => g.cutPiece).pieces⟩
      (segment, (collected outs).2 ++ last.toList) :=
    ⟨h.segment.isFragment h.video h.audio hcut.data, hpieces⟩
  have hclosed := closed_closeLast g last
  exact { h with
    noParts := rfl
    sequence := by
      rw [hclosed, eq_mod_of_add_eq_ok hn, h.sequence, Nat.mod_add_mod, length_append,
        length_singleton]
    partIndex := rfl
    segment := Accumulator.holds_clear _
    part := hpiece
    closed := by
      rw [hcollect, hclosed]
      exact rel_append h.closed (.cons hsegment .nil)
    numbers := by
      rw [hcollect, hclosed, map_append, h.numbers, length_append, length_singleton,
        counting_succ, map_singleton, hcut.sequence, h.sequence, Nat.zero_add]
    parts := by rw [hcollect]; exact ⟨.nil, rfl⟩ }

/-- What one pushed frame does to the grouping. -/
theorem Follows.pushed {out : SegmenterOutput} (h : Follows p g outs s)
    (hpush : s.Pushed p frame out s') :
    ∃ g', Follows p g' (outs ++ [out]) s' ∧ g'.all = g.all ++ [frame] ∧
      (g'.closed = g.closed ∨
        s.EndsSegment p frame ∧ ∃ pieces, g'.closed = g.closed ++ [⟨g.items, pieces⟩]) ∧
      (s.llHlsEnabled = true → (s.EndsSegment p frame → s.part.videoSamples ≠ []) →
        g.Aligned → g'.Aligned) := by
  cases hpush with
  | keep =>
    exact ⟨_, ((h.start frame).addSample frame).concat _, Grouping.all_push .., Or.inl rfl,
      fun _ _ hg => hg.push _⟩
  | part _ _ hcut =>
    refine ⟨_, ((h.start frame).cutPart hcut s.pendingInit).addSample frame, ?_, Or.inl rfl, ?_⟩
    · rw [Grouping.all_push, Grouping.all_cutPiece]
    · exact fun _ _ hg => hg.cutPiece.push _
  | segment hends hcut =>
    -- the open piece goes into the group only if it has video
    obtain ⟨last, piece, n, hlast, hn, hparts, rfl⟩ := hcut.state
    have hclosed := closed_closeLast g last
    refine ⟨_, ((h.start frame).cutSegment hcut hlast hn hparts s.pendingInit).addSample frame, ?_,
      Or.inr ⟨hends, _, hclosed⟩, ?_⟩
    · rw [Grouping.all_push, closeLast, Grouping.all_cutGroup]
      cases last with
      | none | some => rfl
    · intro hll hvideo hg
      cases hlast with
      | cut => exact (hg.cutPiece.cutGroup rfl).push _
      | stay hstay => exact absurd (hstay hll) (hvideo hends)

end Follows

/-- Size of a track in a fragment of these frames: boxes, 16 bytes a sample, and the samples. -/
def trackSize (kind : TrackKind) (frames : List FrameData) : Nat :=
  (if trackFrames kind frames = [] then 24 else 64 + 16 * (trackFrames kind frames).length) +
    ((trackFrames kind frames).map (·.data.length)).sum

def groupSize (frames : List FrameData) : Nat :=
  32 + trackSize .video frames + trackSize .audio frames

theorem trackSize_of_trackOf {t : LiveTrackData} (h : TrackOf kind frames t) :
    t.fragmentTrack.trafSize + t.fragmentTrack.data.length = trackSize kind frames := by
  unfold trackSize LiveTrackData.fragmentTrack
  rw [h.samples, isEmpty_map]
  cases trackFrames kind frames with
  | nil => rfl
  | cons f fs =>
    simp [FragmentTrack.trafSize, FragmentTrack.data, flatMap_map, FrameData.timed,
      FrameData.sample, length_flatMap]

theorem liveSegmentSize_eq {video audio : LiveTrackData}
    (hv : TrackOf .video frames video) (ha : TrackOf .audio frames audio) :
    liveSegmentSize [video, audio] = groupSize frames := by
  have hvideo := trackSize_of_trackOf hv
  have haudio := trackSize_of_trackOf ha
  simp only [liveSegmentSize, fragmentSize, moofSize, payload, groupSize, map_cons, map_nil,
    flatMap_cons, flatMap_nil, sum_cons, sum_nil, length_append,
    length_nil]
  omega

theorem trackSize_mono {r : List FrameData} (kind : TrackKind) (h : l.Sublist r) :
    trackSize kind l ≤ trackSize kind r := by
  have hsub : (trackFrames kind l).Sublist (trackFrames kind r) := h.filter _
  have hlen := hsub.length_le
  have hsum : ((trackFrames kind l).map (·.data.length)).sum
      ≤ ((trackFrames kind r).map (·.data.length)).sum :=
    (hsub.map _).sum_le_sum fun _ _ => Nat.zero_le _
  have hboxes : (if trackFrames kind l = [] then 24 else 64 + 16 * (trackFrames kind l).length)
      ≤ if trackFrames kind r = [] then 24 else 64 + 16 * (trackFrames kind r).length := by
    by_cases hr : trackFrames kind r = []
    · rw [hr, sublist_nil] at hsub
      rw [hsub, hr]
    · split <;> omega
  exact Nat.add_le_add hboxes hsum

theorem groupSize_mono {r : List FrameData} (h : l.Sublist r) : groupSize l ≤ groupSize r := by
  have hv := trackSize_mono .video h
  have ha := trackSize_mono .audio h
  unfold groupSize
  omega

def LiveSegmenter.SmallSegment (s : LiveSegmenter) : Prop :=
  liveSegmentSize (s.segment.tracks s.videoConfig s.audioConfig) < 2 ^ 31

instance (s : LiveSegmenter) : Decidable s.SmallSegment := inferInstanceAs (Decidable (_ < _))

/-! ## Every run has its grouping -/

section Run

variable {p : Profile} {C : LiveSegmenter → FrameData → Prop} {segmentDuration partDuration : Float}
  {llHls : Bool} {video : H264Config} {audio : AacConfig} {frames : List FrameData}
  {outs : List SegmenterOutput} {s : LiveSegmenter}

/-- The frames of a run, grouped. -/
theorem exists_grouping
    (hrun : SegmenterRun p C (configured segmentDuration partDuration llHls video audio) frames outs
      s)
    (hsmall : ∀ s f, C s f → s.EndsSegment p f → s.SmallSegment) :
    ∃ g, Follows p g outs s ∧ g.all = frames ∧ s.llHlsEnabled = llHls ∧
      (∀ c ∈ g.closed, groupSize c.items < 2 ^ 31) ∧
      (llHls = true → (∀ s f, C s f → s.EndsSegment p f → s.part.videoSamples ≠ []) → g.Aligned) :=
        by
  induction hrun with
  | nil =>
    refine ⟨.empty, ?_, rfl, rfl, by simp [Grouping.empty], fun _ _ => Grouping.aligned_empty⟩
    exact ⟨rfl, rfl, rfl, rfl, rfl, Accumulator.holds_empty, Accumulator.holds_empty,
      .nil, rfl, .nil, rfl⟩
  | @push frames outs s s' frame out _ hC hpush ih =>
    obtain ⟨g, hg, hall, hll, hsizes, halign⟩ := ih
    have hpushed := LiveSegmenter.pushed_of_pushFrame hpush
    obtain ⟨g', hg', hall', hclosed, halign'⟩ := hg.pushed hpushed
    refine ⟨g', hg', by rw [hall', hall], hpushed.settings_eq.2.2.2.2.trans hll, ?_, ?_⟩
    · rcases hclosed with hclosed | ⟨hends, pieces, hclosed⟩
      · rw [hclosed]
        exact hsizes
      rw [hclosed]
      intro c hc
      rcases mem_append.1 hc with hc | hc
      · exact hsizes c hc
      · obtain rfl := mem_singleton.1 hc
        have hlt := hsmall s frame hC hends
        obtain ⟨vc, hvc⟩ := Option.isSome_iff_exists.1 hg.video
        obtain ⟨ac, hac⟩ := Option.isSome_iff_exists.1 hg.audio
        rw [LiveSegmenter.SmallSegment, hvc, hac] at hlt
        rwa [← liveSegmentSize_eq hg.segment.videoTrack hg.segment.audioTrack]
    · intro hll' hvideo
      exact halign' (hll.trans hll') (hvideo s frame hC) (halign hll' hvideo)

end Run

/-! ## Reading a fragment -/

def readFragment (data : Bytes) : Option (List LiveTrackView) :=
  (demuxFragment data).map (List.map receivedTrack)

/-- A frame's sample, as it comes back: its composition offset is read unsigned. -/
def FrameData.received (frame : FrameData) : LiveSampleView :=
  ⟨frame.data, 3000, frame.isKeyframe, frame.offset.toUInt32.toNat⟩

def receivedFrames (kind : TrackKind) (frames : List FrameData) : LiveTrackView :=
  ⟨kind.trackId.toNat, (trackFrames kind frames).head?.map (·.dts.toNat),
    (trackFrames kind frames).map FrameData.received⟩

theorem received_of_trackOf {t : LiveTrackData} (h : TrackOf kind frames t) :
      receivedTrack t.fragmentTrack.player = receivedFrames kind frames := by
  have hbase := h.base
  rw [received_player_track, h.trackId, h.samples, receivedFrames, map_map, isEmpty_map]
  cases htrack : trackFrames kind frames with
  | nil => rfl
  | cons f fs =>
    rw [htrack] at hbase
    have hf := hbase f rfl
    simp only [isEmpty_cons, hf]
    rfl

theorem IsFragment.read {data : Bytes} (h : IsFragment p frames data)
    (hsize : groupSize frames < 2 ^ 31) :
    readFragment data = some [receivedFrames .video frames, receivedFrames .audio frames] := by
  obtain ⟨seq, video, audio, hv, ha, hdata⟩ := h
  rw [← liveSegmentSize_eq hv ha] at hsize
  rw [generateLiveMediaSegment_eq p seq (by omega)] at hdata
  rw [readFragment, ← Except.ok.inj hdata, demuxFragment_live hsize]
  simp only [Option.map_some, map_cons, map_nil, received_of_trackOf hv,
    received_of_trackOf ha]

end Nozdormu.Ingest
