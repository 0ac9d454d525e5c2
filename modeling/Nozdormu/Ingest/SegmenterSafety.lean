import Nozdormu.Ingest.Segmenter
import Nozdormu.Packaging.RequestSafety

/-!
# When the segmenter panics

Without overflow checks every frame goes through (`returns_pushFrame_release`). With them the
segmenter stops at a frame that lies before the start of the open segment or part, at numbers
that are used up, and at fragments that do not fit into 32 bits; `FrameSafe` says when, exactly
(`returnsIff_pushFrame`).
-/

namespace Nozdormu.Ingest

open Rust Bmff Packaging

def TracksFit (tracks : List LiveTrackData) : Prop :=
  OffsetsFit (moofSize (tracks.map LiveTrackData.fragmentTrack) % 2 ^ 32) 0
    (tracks.map fun t => t.fragmentTrack.data.length)

theorem returnsIff_generateLiveMediaSegment {ε : Type} (seq : UInt32)
    (tracks : List LiveTrackData) :
    ReturnsIff (generateLiveMediaSegment .dev seq tracks : Exec ε Bytes) (TracksFit tracks) := by
  have hrun : tracks.mapM (fun t => (.ok t.fragmentTrack : Exec ε FragmentTrack))
      = .ok (tracks.map LiveTrackData.fragmentTrack) := List.mapM_pure
  refine (returnsIff_assembleFragment pure_buildLiveTraf fun t _ => .of_eq_ok rfl trivial).congr ?_
  constructor
  · intro h
    have hfit := h.2 _ hrun
    rwa [List.map_map] at hfit
  · intro h
    refine ⟨fun _ _ => trivial, fun rs hrs => ?_⟩
    obtain rfl := ok_unique hrun hrs
    rwa [List.map_map]

/-- The open accumulator, if it has a start, started no later. -/
def Accumulator.StartedBy (a : Accumulator) (dts : UInt64) :
    Prop := ∀ start ∈ a.startDts, start ≤ dts

theorem Accumulator.returnsIff_elapsed (a : Accumulator) (dts : UInt64) (timescale : UInt32) :
    ReturnsIff (a.elapsed .dev dts timescale) (a.StartedBy dts) := by
  unfold Accumulator.elapsed Accumulator.StartedBy
  split
  next hnone => exact .of_eq_ok rfl (by rw [hnone]; exact nofun)
  next start hstart =>
    refine (returnsIff_sub.map _).congr ?_
    rw [hstart]
    simp [UInt64.le_iff_toNat_le]

/-- Marking a start changes nothing: the frame itself is no earlier than itself. -/
theorem Accumulator.startedBy_mark {a : Accumulator} {dts : UInt64} :
    (a.mark dts).StartedBy dts ↔ a.StartedBy dts := by
  unfold Accumulator.StartedBy Accumulator.mark
  cases a.startDts with
  | none | some => simp

namespace LiveSegmenter

/-- The open part can be closed: its number and its fragment fit into 32 bits. -/
def PartSafe (s : LiveSegmenter) : Prop :=
  s.nextSequence % 2 ^ 32 * 1000 + s.partIndex + 1 < 2 ^ 32 ∧
    TracksFit (s.part.tracks s.videoConfig s.audioConfig)

/-- The open segment can be closed, and the open part with it. -/
def SegmentSafe (s : LiveSegmenter) : Prop :=
  (s.llHlsEnabled = true ∧ s.part.videoSamples ≠ [] → s.PartSafe) ∧
    TracksFit (s.segment.tracks s.videoConfig s.audioConfig) ∧ s.nextSequence + 1 < 2 ^ 64

variable (s : LiveSegmenter) (frame : FrameData) (timescale : UInt32)

theorem returnsIff_cutPart (hvideo : s.part.videoSamples ≠ []) :
    ReturnsIff (s.cutPart .dev timescale) s.PartSafe := by
  rw [cutPart, if_neg fun hempty => hvideo hempty.1]
  refine (returnsIff_mul_add_add.bind_const fun seq _ =>
    (returnsIff_generateLiveMediaSegment _ _).bind_const fun data _ => returnsIff_add.map _).congr
      ?_
  -- the part's number bounds its index
  refine and_congr_right fun hnumber => and_iff_left ?_
  omega

theorem returnsIff_cutLastPart : ReturnsIff (s.cutLastPart .dev timescale)
      (s.llHlsEnabled = true ∧ s.part.videoSamples ≠ [] → s.PartSafe) :=
  .ite fun hcut => s.returnsIff_cutPart timescale hcut.2

theorem returnsIff_cutSegment : ReturnsIff (s.cutSegment .dev timescale) s.SegmentSafe := by
  refine (s.returnsIff_cutLastPart timescale).bind_const fun r hr => ?_
  obtain ⟨last, s'⟩ := r
  -- closing the last part leaves the segment as it is
  unfold cutLastPart at hr
  split at hr
  next hcut =>
    obtain ⟨part, -, hpart⟩ := partCut_of_cutPart hcut.2 hr
    obtain ⟨n, -, rfl⟩ := hpart.state
    exact (returnsIff_generateLiveMediaSegment _ _).bind_const fun data _ => returnsIff_add.map _
  next =>
    cases hr
    exact (returnsIff_generateLiveMediaSegment _ _).bind_const fun data _ => returnsIff_add.map _

/-- The open part is no obstacle to the frame. -/
structure OpenPartSafe : Prop where
  /-- the frame does not lie before it, unless it is closed with the segment -/
  started : s.llHlsEnabled = true → (s.EndsSegment .dev frame → s.part.videoSamples = []) →
    s.part.StartedBy frame.dts
  closes : ¬ s.EndsSegment .dev frame → s.EndsPart .dev frame → s.PartSafe

/-- With overflow checks, the frame can be pushed. -/
structure FrameSafe : Prop where
  /-- the composition offset fits into 64 bits -/
  offset : -2 ^ 63 ≤ frame.pts.toInt64.toInt - frame.dts.toInt64.toInt ∧
    frame.pts.toInt64.toInt - frame.dts.toInt64.toInt < 2 ^ 63
  /-- the frame does not lie before the open segment -/
  started : s.segment.StartedBy frame.dts
  closes : s.EndsSegment .dev frame → s.SegmentSafe
  openPart : s.OpenPartSafe frame

theorem returnsIff_closePart_behind {segment : Option CompletedSegment} {mid : LiveSegmenter}
    (h : (s.start frame).closeSegment .dev frame ((s.start frame).timescaleOf frame.track)
      = .ok (segment, mid)) :
    ReturnsIff (mid.closePart .dev frame ((s.start frame).timescaleOf frame.track))
      (s.OpenPartSafe frame) := by
  obtain ⟨elapsed, helapsed, h⟩ := bind_eq_ok.1 h
  refine (ReturnsIff.ite fun _ => (mid.part.returnsIff_elapsed frame.dts _).bind fun _ _ =>
    .ite fun hdue => mid.returnsIff_cutPart _ hdue.2).congr ?_
  split at h
  next hcuts =>
    have hends : s.EndsSegment .dev frame := ⟨elapsed, helapsed, hcuts⟩
    obtain ⟨⟨segment', mid'⟩, hcut, h⟩ := bind_eq_ok.1 h
    obtain ⟨rfl, rfl⟩ := ok_pair_inj h
    obtain ⟨last, open', n, hlast, -, -, rfl⟩ := (segmentCut_of_cutSegment hcut).state
    cases hlast with
    | cut hll hvideo _ =>
      -- the part went with the segment, and the next one starts with this frame
      refine iff_of_true (fun _ => ⟨nofun, fun _ _ hdue => absurd rfl hdue.2⟩) ⟨?_, ?_⟩
      · exact fun _ hempty => absurd (hempty hends) hvideo
      · exact fun hnot => absurd hends hnot
    | stay hstay =>
      -- audio alone stays behind, with its start, and is not due without video
      constructor
      · intro h
        refine ⟨fun hll _ => Accumulator.startedBy_mark.1 (h hll).1, fun hnot => absurd hends hnot⟩
      · intro h hll
        refine ⟨Accumulator.startedBy_mark.2 (h.started hll fun _ => hstay hll), ?_⟩
        exact fun _ _ hdue => absurd (hstay hll) hdue.2
  next hstays =>
    obtain ⟨rfl, rfl⟩ := ok_pair_inj h
    have hnot : ¬ s.EndsSegment .dev frame := by
      rintro ⟨elapsed', helapsed', hcuts⟩
      obtain rfl := ok_unique helapsed helapsed'
      exact hstays hcuts
    constructor
    · intro h
      refine ⟨fun hll _ => Accumulator.startedBy_mark.1 (h hll).1, fun _ hends => ?_⟩
      obtain ⟨elapsed', helapsed', hdue⟩ := hends.due
      exact (h hends.llHls).2 elapsed' helapsed' ⟨hdue, hends.video⟩
    · intro h hll
      refine ⟨Accumulator.startedBy_mark.2 (h.started hll fun hends => absurd hends hnot), ?_⟩
      exact fun elapsed' helapsed' hdue => h.closes hnot ⟨hll, hdue.2, elapsed', helapsed', hdue.1⟩

theorem returnsIff_pushFrame : ReturnsIff (s.pushFrame .dev frame) (s.FrameSafe frame) := by
  refine ((returnsIff_signed.map _).bind_const fun _ _ =>
    (((s.start frame).segment.returnsIff_elapsed frame.dts _).bind fun _ _ =>
      .ite fun _ => ((s.start frame).returnsIff_cutSegment _).map _).bind_const
      fun r hr => (s.returnsIff_closePart_behind frame hr).map _).congr ?_
  constructor
  · rintro ⟨hoffset, ⟨hstarted, hcloses⟩, hpart⟩
    refine ⟨hoffset, Accumulator.startedBy_mark.1 hstarted, ?_, hpart⟩
    rintro ⟨elapsed, helapsed, hcuts⟩
    exact hcloses elapsed helapsed hcuts
  · intro h
    refine ⟨h.offset, ⟨Accumulator.startedBy_mark.2 h.started, ?_⟩, h.openPart⟩
    exact fun elapsed helapsed hcuts => h.closes ⟨elapsed, helapsed, hcuts⟩

end LiveSegmenter

end Nozdormu.Ingest
