import Nozdormu.Ingest.SrtSession

/-!
# Video published over SRT
-/

namespace Nozdormu.Ingest

open Rust Bmff Packaging List

/-! ## A session is a run of the segmenter -/

variable {p : Profile} {C : LiveSegmenter → FrameData → Prop}

theorem SegmenterRun.trans
    {s₀ s₁ s₂ : LiveSegmenter} {frames₁ frames₂ : List FrameData}
    {outs₁ outs₂ : List SegmenterOutput}
    (h₁ : SegmenterRun p C s₀ frames₁ outs₁ s₁) (h₂ : SegmenterRun p C s₁ frames₂ outs₂ s₂) :
    SegmenterRun p C s₀ (frames₁ ++ frames₂) (outs₁ ++ outs₂) s₂ := by
  induction h₂ with
  | nil => simpa using h₁
  | push _ hC hpush ih =>
    rw [← append_assoc, ← append_assoc]
    exact ih.push hC hpush

/-- Every step of a session's segmenter is allowed. -/
abbrev AnyFrame : LiveSegmenter → FrameData → Prop := fun _ _ => True

namespace SrtSession

variable {p : Profile}

theorem run_of_pushFrames : ∀ {frames : List FrameData} {s s' : SrtSession}
    {outs : List SegmenterOutput}, s.pushFrames p frames = .ok (outs, s') →
    SegmenterRun p AnyFrame s.segmenter frames outs s'.segmenter ∧ s'.demuxer = s.demuxer := by
  intro frames
  induction frames with
  | nil =>
    intro s s' outs h
    obtain ⟨rfl, rfl⟩ := ok_pair_inj h
    exact ⟨.nil, rfl⟩
  | cons frame frames ih =>
    intro s s' outs h
    obtain ⟨⟨out, segmenter⟩, hpush, h⟩ := bind_eq_ok.1 h
    obtain ⟨store, -, h⟩ := bind_eq_ok.1 h
    obtain ⟨⟨outs', s''⟩, hrest, h⟩ := bind_eq_ok.1 h
    obtain ⟨rfl, rfl⟩ := ok_pair_inj h
    obtain ⟨hrun, hdemuxer⟩ := ih hrest
    have hfirst : SegmenterRun p AnyFrame s.segmenter ([] ++ [frame]) ([] ++ [out]) segmenter :=
      SegmenterRun.nil.push trivial hpush
    exact ⟨hfirst.trans hrun, hdemuxer⟩

theorem segmenterRun_of_run : ∀ {rounds : List (LiveStreamStore × Bytes)} {s s' : SrtSession}
    {outs : List SegmenterOutput}, s.run p rounds = .ok (outs, s') →
    ∃ frames, s.demuxer.pushCalls (rounds.map Prod.snd) = .ok (frames, s'.demuxer) ∧
      SegmenterRun p AnyFrame s.segmenter frames outs s'.segmenter := by
  intro rounds
  induction rounds with
  | nil =>
    intro s s' outs h
    obtain ⟨rfl, rfl⟩ := ok_pair_inj h
    exact ⟨[], rfl, .nil⟩
  | cons round rounds ih =>
    intro s s' outs h
    obtain ⟨store, data⟩ := round
    obtain ⟨⟨outs₁, s₁⟩, hreceive, h⟩ := bind_eq_ok.1 h
    obtain ⟨⟨outs₂, s₂⟩, hrest, h⟩ := bind_eq_ok.1 h
    obtain ⟨rfl, rfl⟩ := ok_pair_inj h
    obtain ⟨⟨frames₁, demuxer⟩, hdata, hpush⟩ := bind_eq_ok.1 hreceive
    obtain ⟨hrun₁, hdemuxer⟩ := run_of_pushFrames hpush
    obtain ⟨frames₂, hcalls, hrun₂⟩ := ih hrest
    refine ⟨frames₁ ++ frames₂, ?_, hrun₁.trans hrun₂⟩
    rw [hdemuxer] at hcalls
    show (s.demuxer.pushData data >>= _) = _
    rw [hdata]
    show (demuxer.pushCalls (rounds.map Prod.snd) >>= _) = _
    rw [hcalls]
    rfl

end SrtSession

/-! ## A segmenter without configuration -/

/-- The ticks between two time stamps, in seconds of the clock that a track without configuration
is taken to have. -/
def secondsSince (start dts : UInt64) : Float := (dts - start).toFloat / (90000 : UInt32).toFloat

/-- The video keyframe, behind other video, comes at least a segment's duration after the first
frame. -/
def EndsFirstSegment (segmentDuration : Float) (before : List FrameData) (frame : FrameData) :
    Prop :=
  frame.track = .video ∧ frame.isKeyframe = true ∧ trackFrames .video before ≠ [] ∧
    ∀ first ∈ before.head?, segmentDuration ≤ secondsSince first.dts frame.dts

def LateKeyframe (segmentDuration : Float) (frames : List FrameData) : Prop :=
  ∃ before frame, before ++ [frame] <+: frames ∧ EndsFirstSegment segmentDuration before frame

theorem lateKeyframe_concat {segmentDuration : Float} {frames : List FrameData}
    {frame : FrameData} :
    LateKeyframe segmentDuration (frames ++ [frame]) ↔
      LateKeyframe segmentDuration frames ∨ EndsFirstSegment segmentDuration frames frame := by
  constructor
  · rintro ⟨before, f, hle, hends⟩
    rcases prefix_concat_iff.1 hle with heq | hle
    · obtain ⟨rfl, hf⟩ := append_inj' heq rfl
      obtain rfl := singleton_inj.1 hf
      exact .inr hends
    · exact .inl ⟨before, f, hle, hends⟩
  · rintro (⟨before, f, hle, hends⟩ | hends)
    · exact ⟨before, f, hle.trans (prefix_append ..), hends⟩
    · exact ⟨frames, frame, prefix_rfl, hends⟩

theorem elapsed_eq {a : Accumulator} {start dts : UInt64} {timescale : UInt32}
    {elapsed : Float} (hstart : a.startDts = some start)
    (h : a.elapsed p dts timescale = .ok elapsed) :
    elapsed = (dts - start).toFloat / timescale.toFloat := by
  rw [Accumulator.elapsed, hstart] at h
  obtain ⟨ticks, hticks, h⟩ := bind_eq_ok.1 h
  have hsub : UInt64.ofNat ticks = dts - start := by
    unfold Profile.sub at hticks
    split at hticks
    next hle =>
      cases hticks
      rw [← UInt64.toNat_inj, UInt64.toNat_sub_of_le _ _ (UInt64.le_iff_toNat_le.2 hle),
         UInt64.toNat_ofNat_of_lt']
      exact Nat.lt_of_le_of_lt (Nat.sub_le ..) dts.toNat_lt
    next =>
      cases p with
      | dev => cases hticks
      | release =>
        cases hticks
        rw [← UInt64.toNat_inj, UInt64.toNat_sub]
        have := start.toNat_lt
        simp
        omega
  rw [← hsub, ← Except.ok.inj h]

/-- A run of a segmenter that is never configured. -/
structure UnconfiguredRun (segmentDuration : Float) (frames : List FrameData)
    (outs : List SegmenterOutput) (s : LiveSegmenter) : Prop where
  config : s.videoConfig = none
  duration : s.segmentDuration = segmentDuration
  noInit : ∀ out ∈ outs, out.initSegment = none
  late : closedSegments outs = [] ↔ ¬ LateKeyframe segmentDuration frames
  holds : closedSegments outs = [] → s.segment.Holds frames
  start : closedSegments outs = [] → s.segment.startDts = frames.head?.map (·.dts)

theorem closedSegments_concat (outs : List SegmenterOutput) (out : SegmenterOutput) :
    closedSegments (outs ++ [out]) = closedSegments outs ++ out.completedSegment.toList := by
  rw [closedSegments, closedSegments, filterMap_append]
  cases h : out.completedSegment <;> simp [h]

namespace UnconfiguredRun

variable {p : Profile} {segmentDuration : Float} {frames : List FrameData}
  {outs : List SegmenterOutput} {s s' : LiveSegmenter} {frame : FrameData} {out : SegmenterOutput}

theorem nil (segmentDuration partDuration : Float) (llHls : Bool) :
    UnconfiguredRun segmentDuration [] [] (.new segmentDuration partDuration llHls) where
  config := rfl
  duration := rfl
  noInit := nofun
  late := by
    refine iff_of_true rfl ?_
    rintro ⟨before, frame, hle, -⟩
    have := hle.length_le
    simp at this
  holds := fun _ => Accumulator.holds_empty
  start := fun _ => rfl

section

variable (h : UnconfiguredRun segmentDuration frames outs s)
include h

theorem endsSegment_iff
    (hnone : closedSegments outs = []) (hpush : s.pushFrame p frame = .ok (out, s')) :
    s.EndsSegment p frame ↔ EndsFirstSegment segmentDuration frames frame := by
  have hsamples : s.segment.videoSamples ≠ [] ↔ trackFrames .video frames ≠ [] := by
    rw [(h.holds hnone).video, ne_eq, map_eq_nil_iff]
  obtain ⟨cts, -, hclose⟩ := bind_eq_ok.1 hpush
  obtain ⟨closed, hclose, -⟩ := bind_eq_ok.1 hclose
  obtain ⟨elapsed, helapsed, -⟩ := bind_eq_ok.1 hclose
  have htime : frame.track = .video → ∀ first ∈ frames.head?,
      elapsed = secondsSince first.dts frame.dts := by
    intro htrack first hfirst
    have hstart : (s.start frame).segment.startDts = some first.dts := by
      show s.segment.startDts.or (some frame.dts) = _
      rw [h.start hnone, Option.mem_def.1 hfirst]
      rfl
    have hscale : (s.start frame).timescaleOf frame.track = 90000 := by
      rw [htrack]
      show (s.videoConfig.map (·.timescale)).getD 90000 = 90000
      rw [h.config]
      rfl
    rw [elapsed_eq hstart helapsed, hscale]
    rfl
  constructor
  · rintro ⟨elapsed', helapsed', hcuts⟩
    obtain rfl := ok_unique helapsed helapsed'
    obtain ⟨htrack, hkey, -, hvideo, hdue⟩ := of_decide_eq_true hcuts
    refine ⟨htrack, hkey, hsamples.1 hvideo, fun first hfirst => ?_⟩
    rw [← htime htrack first hfirst, ← h.duration]
    exact hdue
  · rintro ⟨htrack, hkey, hvideo, hdue⟩
    refine ⟨elapsed, helapsed, decide_eq_true ⟨htrack, hkey, ?_, hsamples.2 hvideo, ?_⟩⟩
    · show (s.segment.startDts.or (some frame.dts)).isSome = true
      cases s.segment.startDts <;> rfl
    obtain ⟨first, rest, hframes⟩ : ∃ first rest, frames = first :: rest := by
      refine exists_cons_of_ne_nil ?_
      rintro rfl
      exact hvideo rfl
    have hfirst : first ∈ frames.head? := by rw [hframes]; rfl
    show s.segmentDuration ≤ elapsed
    rw [htime htrack first hfirst, h.duration]
    exact hdue first hfirst

theorem concat_open
    (hends : ¬ EndsFirstSegment segmentDuration frames frame)
    (hclosed : out.completedSegment = none)
    (hinit : out.initSegment = none) (hconfig : s'.videoConfig = none)
    (hduration : s'.segmentDuration = segmentDuration)
    (hsegment : s'.segment = (s.segment.mark frame.dts).push frame frame.sample) :
    UnconfiguredRun segmentDuration (frames ++ [frame]) (outs ++ [out]) s' := by
  have hsame : closedSegments (outs ++ [out]) = closedSegments outs := by
    rw [closedSegments_concat, hclosed, Option.toList_none, append_nil]
  have hstart : ∀ a : Accumulator, (a.push frame frame.sample).startDts = a.startDts := by
    intro a
    unfold Accumulator.push
    split <;> rfl
  refine ⟨hconfig, hduration, ?_, ?_, fun hnone => ?_, fun hnone => ?_⟩
  · intro o ho
    rcases mem_append.1 ho with ho | ho
    · exact h.noInit o ho
    · rw [mem_singleton.1 ho]
      exact hinit
  · rw [hsame, h.late, lateKeyframe_concat]
    simp [hends]
  · rw [hsegment]
    exact ((h.holds (hsame ▸ hnone)).mark _).push frame
  · rw [hsegment, hstart]
    show s.segment.startDts.or (some frame.dts) = _
    rw [h.start (hsame ▸ hnone)]
    cases frames <;> rfl

theorem concat_closed (hinit : out.initSegment = none) (hconfig : s'.videoConfig = none)
    (hduration : s'.segmentDuration = segmentDuration)
    (hclosed : closedSegments (outs ++ [out]) ≠ [])
    (hlate : LateKeyframe segmentDuration (frames ++ [frame])) :
    UnconfiguredRun segmentDuration (frames ++ [frame]) (outs ++ [out]) s' := by
  refine ⟨hconfig, hduration, ?_, iff_of_false hclosed (not_not.2 hlate),
    fun hnone => absurd hnone hclosed, fun hnone => absurd hnone hclosed⟩
  intro o ho
  rcases mem_append.1 ho with ho | ho
  · exact h.noInit o ho
  · rw [mem_singleton.1 ho]
    exact hinit

theorem push (hpush : s.pushFrame p frame = .ok (out, s')) :
    UnconfiguredRun segmentDuration (frames ++ [frame]) (outs ++ [out]) s' := by
  have hpushed := LiveSegmenter.pushed_of_pushFrame hpush
  obtain ⟨hinit, hconfig, -, hduration, -⟩ := hpushed.settings_eq
  rw [h.config] at hconfig
  rw [h.duration] at hduration
  have hpending : out.initSegment = none := by
    rw [hinit, LiveSegmenter.pendingInit, LiveSegmenter.buildInitSegment, h.config]
    split <;> rfl
  by_cases hnone : closedSegments outs = []
  · have hends := h.endsSegment_iff hnone hpush
    cases hpushed with
    | keep hsegment hpart =>
      exact h.concat_open (mt hends.2 hsegment) rfl hpending hconfig hduration rfl
    | part hsegment hpart hcut =>
      obtain ⟨n, -, rfl⟩ := hcut.state
      exact h.concat_open (mt hends.2 hsegment) rfl hpending hconfig hduration rfl
    | segment hsegment hcut =>
      refine h.concat_closed hpending hconfig hduration ?_
        (lateKeyframe_concat.2 (.inr (hends.1 hsegment)))
      rw [closedSegments_concat]
      simp
  · refine h.concat_closed hpending hconfig hduration ?_
      (lateKeyframe_concat.2 (.inl (not_not.1 (mt h.late.2 hnone))))
    rw [closedSegments_concat]
    exact append_ne_nil_of_left_ne_nil hnone _

end

theorem of_run {partDuration : Float} {llHls : Bool}
    (h : SegmenterRun p C (.new segmentDuration partDuration llHls) frames outs s) :
    UnconfiguredRun segmentDuration frames outs s := by
  induction h with
  | nil => exact nil ..
  | push _ _ hpush ih => exact ih.push hpush

end UnconfiguredRun

/-! ## What viewers get -/

/-- No segment is completed before an init segment was published. -/
def InitFirst (outs : List SegmenterOutput) : Prop :=
  ∀ before out, before ++ [out] <+: outs → out.completedSegment ≠ none →
    ∃ o ∈ before ++ [out], o.initSegment ≠ none

/-- The completed segments have the video frames that the demuxer extracted for them, and there
is an init segment by the first of them. -/
def SrtDelivers (frames : List FrameData) (outs : List SegmenterOutput) (s : LiveSegmenter) :
    Prop :=
  TrackRecovered .video frames outs s.segment.videoSamples ∧ InitFirst outs

variable {outs : List SegmenterOutput}

theorem UnconfiguredRun.delivers_iff {segmentDuration : Float} {frames : List FrameData}
    {s : LiveSegmenter} (h : UnconfiguredRun segmentDuration frames outs s) :
    SrtDelivers frames outs s ↔ ¬ LateKeyframe segmentDuration frames := by
  rw [← h.late]
  constructor
  · rintro ⟨-, hinit⟩
    refine filterMap_eq_nil_iff.2 fun out hout => ?_
    by_contra hsome
    obtain ⟨before, after, rfl⟩ := append_of_mem hout
    have hle : before ++ [out] <+: before ++ out :: after := ⟨after, by simp⟩
    obtain ⟨o, ho, hne⟩ := hinit before out hle hsome
    exact hne (h.noInit o (hle.subset ho))
  · intro hnone
    refine ⟨?_, ?_⟩
    · -- all frames are pending
      rw [TrackRecovered, hnone]
      show s.segment.videoSamples.map pendingKey = (trackFrames .video frames).map FrameData.key
      rw [(h.holds hnone).video, map_map]
      rfl
    · intro before out hle hsome
      exact absurd (filterMap_eq_nil_iff.1 hnone out (hle.subset (by simp))) hsome

theorem segmenterRun_of_handleSrtConnection {config : IngestConfig}
    {store : LiveStreamStore} {streamId : String} {accept : Option String}
    {rounds : List (LiveStreamStore × Bytes)} {s : SrtSession}
    (h : handleSrtConnection p config store streamId accept rounds = .ok (outs, s)) :
    ∃ frames, TsDemuxer.new.pushCalls (rounds.map Prod.snd) = .ok (frames, s.demuxer) ∧
      UnconfiguredRun config.segmentDuration frames outs s.segmenter := by
  obtain ⟨s₀, hstart, hrun⟩ := bind_eq_ok.1 h
  obtain ⟨⟨app, key⟩, -, hstart⟩ := bind_eq_ok.1 hstart
  obtain ⟨⟨app, name⟩, -, hstart⟩ := bind_eq_ok.1 hstart
  cases accept with
  | some e => cases hstart
  | none =>
    obtain ⟨⟨handle, store'⟩, -, hstart⟩ := bind_eq_ok.1 hstart
    cases hstart
    obtain ⟨frames, hframes, hrun⟩ := SrtSession.segmenterRun_of_run hrun
    exact ⟨frames, hframes, .of_run hrun⟩

/-- **Video over SRT is delivered** exactly as long as no keyframe comes a segment's duration after
the first frame, that is, as long as there is nothing to deliver. -/
theorem srtDelivers_iff (p : Profile) (config : IngestConfig) (store : LiveStreamStore)
    (streamId : String) (accept : Option String) (rounds : List (LiveStreamStore × Bytes))
    (outs : List SegmenterOutput) (s : SrtSession)
    (h : handleSrtConnection p config store streamId accept rounds = .ok (outs, s)) :
    ∃ frames, TsDemuxer.new.pushCalls (rounds.map Prod.snd) = .ok (frames, s.demuxer) ∧
      (SrtDelivers frames outs s.segmenter ↔ ¬ LateKeyframe config.segmentDuration frames) := by
  obtain ⟨frames, hframes, hrun⟩ := segmenterRun_of_handleSrtConnection h
  exact ⟨frames, hframes, hrun.delivers_iff⟩

/-- A transport packet without adaptation field, filled up with zeros. -/
def tsPacket (hi lo : UInt8) (payload : Bytes) : Bytes :=
  [0x47, hi, lo, 0x10] ++ payload ++ List.replicate (184 - payload.length) 0

def h264Tables : Bytes :=
  tsPacket 0x40 0x00 [0x00, 0x00, 0xB0, 0x0D, 0x00, 0x01, 0xC1, 0x00, 0x00, 0x00,
    0x01, 0xE1, 0x00] ++
    tsPacket 0x41 0x00 [0x00, 0x02, 0xB0, 0x12, 0x00, 0x01, 0xC1, 0x00, 0x00, 0xE1,
      0x01, 0xF0, 0x00,
      0x1B, 0xE1, 0x01, 0xF0, 0x00]

def idrPicture (pts : Bytes) : Bytes :=
  tsPacket 0x41 0x01 ([0x00, 0x00, 0x01, 0xE0, 0x00, 0x00, 0x80, 0x80, 0x05] ++ pts ++
    [0x00, 0x00, 0x01, 0x65, 0x88])

/-- Pictures at 0 and at 270000, that is after three seconds, and the start of a third one. -/
def threeSeconds : Bytes :=
  h264Tables ++ idrPicture [0x21, 0x00, 0x01, 0x00, 0x01] ++ idrPicture
    [0x21, 0x00, 0x11, 0x3D, 0x61] ++
    idrPicture [0x21, 0x00, 0x11, 0x3D, 0x61]

/-- Pictures at 0 and at 540000, that is after six seconds, and the start of a third one. -/
def sixSeconds : Bytes :=
  h264Tables ++ idrPicture [0x21, 0x00, 0x01, 0x00, 0x01] ++ idrPicture
    [0x21, 0x00, 0x21, 0x7A, 0xC1] ++
    idrPicture [0x21, 0x00, 0x21, 0x7A, 0xC1]

def camStore : LiveStreamStore := ⟨[("live/cam", 0)], [.new 6.0 0.5 false 5], 5, 5⟩

/-- Two pictures of one segment that is still open. -/
theorem srtDelivers_iff_threeSeconds : ∃ outs s frames,
    handleSrtConnection .release camConfig (.new 5 5) "live/key" none [(camStore, threeSeconds)]
        = .ok (outs, s) ∧
      TsDemuxer.new.pushCalls [threeSeconds] = .ok (frames, s.demuxer) ∧
      (trackFrames .video frames).length = 2 ∧ SrtDelivers frames outs s.segmenter := by
  obtain ⟨⟨outs, s⟩, hrun, hclosed⟩ := exists_of_any_toOption
    (q := fun r => closedSegments r.1 = [])
    (x := handleSrtConnection .release camConfig (.new 5 5) "live/key" none
      [(camStore, threeSeconds)])
    (by decide +kernel)
  obtain ⟨⟨frames, demuxer⟩, hframes, hlength⟩ := exists_of_any_toOption
    (q := fun r => (trackFrames .video r.1).length = 2)
      (x := TsDemuxer.new.pushCalls [threeSeconds])
    (by decide +kernel)
  obtain ⟨frames', hframes', hiff⟩ := srtDelivers_iff _ _ _ _ _ _ _ _ hrun
  cases hframes.symm.trans hframes'
  obtain ⟨frames', hframes', hinv⟩ := segmenterRun_of_handleSrtConnection hrun
  cases hframes.symm.trans hframes'
  exact ⟨outs, s, frames, hrun, hframes, of_decide_eq_true hlength,
    hiff.2 (hinv.late.1 (of_decide_eq_true hclosed))⟩

/-- The second picture completes a segment. -/
theorem srtDelivers_sixSeconds_fails : ∃ outs s frames,
    handleSrtConnection .release camConfig (.new 5 5) "live/key" none [(camStore, sixSeconds)]
        = .ok (outs, s) ∧ s.demuxer.videoPid = some 257 ∧
      TsDemuxer.new.pushCalls [sixSeconds] = .ok (frames, s.demuxer) ∧
      ¬ SrtDelivers frames outs s.segmenter := by
  obtain ⟨⟨outs, s⟩, hrun, hcheck⟩ := exists_of_any_toOption
    (q := fun r => r.2.demuxer.videoPid = some 257 ∧ closedSegments r.1 ≠ [])
    (x := handleSrtConnection .release camConfig (.new 5 5) "live/key" none
      [(camStore, sixSeconds)])
    (by decide +kernel)
  obtain ⟨hpid, hclosed⟩ := of_decide_eq_true hcheck
  obtain ⟨frames, hframes, hinv⟩ := segmenterRun_of_handleSrtConnection hrun
  refine ⟨outs, s, frames, hrun, hpid, hframes, ?_⟩
  rw [hinv.delivers_iff, ← hinv.late]
  exact hclosed

end Nozdormu.Ingest
