import Nozdormu.Ingest.SegmenterRun

/-!
# Frames in, samples out

Two contracts of the segmenter, as a player sees them: it demuxes what was handed out.
-/

namespace Nozdormu.Ingest

open Rust Bmff Packaging Data List

/-! ## Runs that can be evaluated -/

/-- Push frames as long as `check` allows. -/
def pushFrames (p : Profile) (check : LiveSegmenter → FrameData → Bool) (init : LiveSegmenter)
    (frames : List FrameData) : Option (List SegmenterOutput × LiveSegmenter) :=
  frames.foldlM (fun (outs, s) frame => do
    guard (check s frame)
    let (out, s) ← (s.pushFrame p frame).toOption
    return (outs ++ [out], s)) ([], init)

variable {p : Profile}

theorem run_of_pushFrames {check : LiveSegmenter → FrameData → Bool}
    {init : LiveSegmenter} : ∀ {frames : List FrameData} {outs : List SegmenterOutput}
    {s : LiveSegmenter}, pushFrames p check init frames = some (outs, s) →
    SegmenterRun p (fun s f => check s f = true) init frames outs s := by
  intro frames
  induction frames using List.reverseRecOn with
  | nil =>
    intro outs s h
    cases h
    exact .nil
  | append_singleton frames frame ih =>
    intro outs s h
    rw [pushFrames, foldlM_append, Option.bind_eq_bind, Option.bind_eq_some_iff] at h
    obtain ⟨⟨outs', s'⟩, hprev, h⟩ := h
    rw [foldlM_cons, Option.bind_eq_bind, Option.bind_eq_some_iff] at h
    obtain ⟨r, h, hr⟩ := h
    cases hr
    simp only [Option.bind_eq_bind, Option.bind_eq_some_iff, Option.guard_eq_some'] at h
    obtain ⟨-, hcheck, ⟨out, s''⟩, hpush, h⟩ := h
    cases h
    exact .push (ih hprev) hcheck (eq_ok_of_toOption hpush)

theorem exists_run (p : Profile) (check : LiveSegmenter → FrameData → Bool) (init : LiveSegmenter)
    (frames : List FrameData) (q : List SegmenterOutput × LiveSegmenter → Bool)
    (h : (pushFrames p check init frames).any q = true) :
    ∃ outs s, SegmenterRun p (fun s f => check s f = true) init frames outs s ∧
      q (outs, s) = true := by
  cases hr : pushFrames p check init frames with
  | none => rw [hr] at h; cases h
  | some r =>
    rw [hr] at h
    exact ⟨r.1, r.2, run_of_pushFrames hr, h⟩

theorem SegmenterRun.mono {C : LiveSegmenter → FrameData → Prop}
    {init s : LiveSegmenter} {frames : List FrameData} {outs : List SegmenterOutput}
    (h : SegmenterRun p C init frames outs s) (D : LiveSegmenter → FrameData → Prop)
    (hD : ∀ s f, C s f → D s f) : SegmenterRun p D init frames outs s := by
  induction h with
  | nil => exact .nil
  | push _ hc hpush ih => exact .push ih (hD _ _ hc) hpush

/-! ## Recovering the frames -/

/-- What is compared of a sample: data, sync flag, composition offset. -/
abbrev SampleKey := Bytes × Bool × Int

def FrameData.key (frame : FrameData) :
    SampleKey := (frame.data, frame.isKeyframe, frame.offset.toInt)

def viewKey (s : LiveSampleView) : SampleKey := (s.data, s.isSync, s.ctsOffset)

def pendingKey (s : LiveSample) : SampleKey := (s.data, s.isSync, s.ctsOffset.toInt)

/-- Each segment's track takes its samples off the front of the frames and has the decode time
of the first of them; the pending samples are what is left. -/
def Recovers : List FrameData → List LiveTrackView → (pending : List LiveSample) → Prop
  | frames, [], pending => pending.map pendingKey = frames.map FrameData.key
  | frames, view :: views, pending =>
    view.samples.map viewKey = (frames.take view.samples.length).map FrameData.key ∧
      (view.samples ≠ [] → view.baseDts = frames.head?.map (·.dts.toNat)) ∧
      Recovers (frames.drop view.samples.length) views pending

instance decidableRecovers : ∀ (frames : List FrameData) (views : List LiveTrackView)
    (pending : List LiveSample), Decidable (Recovers frames views pending)
  | _, [], _ => inferInstanceAs (Decidable (_ = _))
  | frames, view :: views, pending =>
    let _ := decidableRecovers (frames.drop view.samples.length) views pending
    inferInstanceAs (Decidable (_ ∧ _ ∧ _))

def readTrack (kind : TrackKind) (data : Bytes) : Option LiveTrackView :=
  (readFragment data).bind (List.find? (·.trackId = kind.trackId.toNat))

def closedSegments (outs : List SegmenterOutput) : List CompletedSegment :=
  outs.filterMap (·.completedSegment)

/-- One track of the closed segments, and what is pending of it, are the pushed frames. -/
def TrackRecovered (kind : TrackKind) (frames : List FrameData) (outs : List SegmenterOutput)
    (pending : List LiveSample) : Prop :=
  ((closedSegments outs).mapM fun segment => readTrack kind segment.data).elim False
    fun views => Recovers (trackFrames kind frames) views pending

instance (kind : TrackKind) (frames : List FrameData) (outs : List SegmenterOutput)
    (pending : List LiveSample) : Decidable (TrackRecovered kind frames outs pending) := by
  unfold TrackRecovered
  cases (closedSegments outs).mapM fun segment => readTrack kind segment.data with
  | none => exact inferInstanceAs (Decidable False)
  | some views => exact decidableRecovers ..

def FramesRecovered (frames : List FrameData) (outs : List SegmenterOutput) (s : LiveSegmenter) :
    Prop :=
  TrackRecovered .video frames outs s.segment.videoSamples ∧
    TrackRecovered .audio frames outs s.segment.audioSamples ∧
    (closedSegments outs).map (·.sequence) = counting 64 0 (closedSegments outs).length

instance (frames : List FrameData) (outs : List SegmenterOutput) (s : LiveSegmenter) :
    Decidable (FramesRecovered frames outs s) := inferInstanceAs (Decidable (_ ∧ _ ∧ _))

variable (kind : TrackKind)

theorem readTrack_of_isFragment {group : List FrameData} {data : Bytes}
    (h : IsFragment p group data) (hsize : groupSize group < 2 ^ 31) :
    readTrack kind data = some (receivedFrames kind group) := by
  rw [readTrack, h.read hsize]
  cases kind with
  | video | audio => rfl

theorem collected_fst (outs : List SegmenterOutput) :
    (collected outs).1.map Prod.fst = closedSegments outs := by
  induction outs using List.reverseRecOn with
  | nil => rfl
  | append_singleton outs out ih =>
    rw [collected_concat, collect, closedSegments, filterMap_append, ← closedSegments, ← ih]
    cases hout : out.completedSegment with
    | none | some => simp [hout]

theorem recovers_iff {rest : List FrameData} {pending : List LiveSample}
    (hpending : pending.map pendingKey = (trackFrames kind rest).map FrameData.key) :
    ∀ groups : List (List FrameData),
    Recovers (trackFrames kind (groups.flatten ++ rest))
    (groups.map (receivedFrames kind)) pending ↔
      ∀ f ∈ trackFrames kind groups.flatten, 0 ≤ f.offset.toInt := by
  intro groups
  induction groups with
  | nil => exact iff_of_true hpending (by simp [trackFrames])
  | cons group groups ih =>
    have hlen : (receivedFrames kind group).samples.length = (trackFrames kind group).length :=
      length_map _
    have hsplit : trackFrames kind ((group :: groups).flatten ++ rest)
        = trackFrames kind group ++ trackFrames kind (groups.flatten ++ rest) := by
      rw [flatten_cons, append_assoc, trackFrames_append]
    rw [map_cons, Recovers, hlen, hsplit, take_left, drop_left, ih, flatten_cons,
      trackFrames_append kind group, forall_mem_append]
    -- this group asks for its own offsets; its base time always comes back
    have hkeys : (receivedFrames kind group).samples.map viewKey
          = (trackFrames kind group).map FrameData.key
        ↔ ∀ f ∈ trackFrames kind group, 0 ≤ f.offset.toInt := by
      rw [receivedFrames, map_map, map_inj_left]
      refine forall₂_congr fun f _ => ?_
      show viewKey f.received = f.key ↔ _
      rw [viewKey, FrameData.key, FrameData.received, Prod.mk.injEq, Prod.mk.injEq,
        ← toUInt32_toNat_eq_toInt_iff]
      simp
    have hbase : (receivedFrames kind group).samples ≠ [] →
        (receivedFrames kind group).baseDts
          = (trackFrames kind group ++ trackFrames kind (groups.flatten ++ rest)).head?.map
              (·.dts.toNat) := by
      intro hne
      have hne' : trackFrames kind group ≠ [] := by
        intro hnil
        rw [receivedFrames, hnil] at hne
        exact hne rfl
      rw [List.head?_append_of_ne_nil _ hne']
      rfl
    rw [hkeys]
    exact and_congr_right fun _ => and_iff_right hbase

def LiveSegmenter.pendingCount (s : LiveSegmenter) : Nat :=
  s.segment.videoSamples.length + s.segment.audioSamples.length

theorem length_trackFrames (frames : List FrameData) :
    (trackFrames .video frames).length + (trackFrames .audio frames).length = frames.length := by
  induction frames with
  | nil => rfl
  | cons f fs ih =>
    have hcons : ∀ kind, trackFrames kind (f :: fs) = trackFrames kind [f] ++ trackFrames kind fs :=
      fun kind => trackFrames_append kind [f] fs
    rw [hcons, hcons, length_append, length_append, length_cons]
    cases htrack : f.track with
    | video | audio =>
      rw [trackFrames_self htrack, trackFrames_other (by rw [htrack]; decide), length_singleton,
        length_nil]
      omega

section Recovered

variable {p : Profile} {g : Grouping FrameData} {outs : List SegmenterOutput} {s : LiveSegmenter}

theorem Follows.readTracks (h : Follows p g outs s) (kind : TrackKind)
    (hsize : ∀ c ∈ g.closed, groupSize c.items < 2 ^ 31) :
    ((closedSegments outs).mapM fun segment => readTrack kind segment.data)
      = some ((g.closed.map ClosedGroup.items).map (receivedFrames kind)) := by
  rw [← collected_fst, map_map]
  have hall := h.closed
  revert hall hsize
  generalize (collected outs).1 = segments
  generalize g.closed = groups
  intro hsize hall
  induction hall with
  | nil => rfl
  | cons hx _ ih =>
    obtain ⟨hsmall, hsize⟩ := forall_mem_cons.1 hsize
    rw [map_cons, mapM_cons, readTrack_of_isFragment kind hx.fragment hsmall]
    simp only [Option.bind_eq_bind, Option.bind_some, ih hsize]
    rfl

theorem Follows.trackRecovered_iff (h : Follows p g outs s) (kind : TrackKind)
    (hsize : ∀ c ∈ g.closed, groupSize c.items < 2 ^ 31) {pending : List LiveSample}
    (hpending : pending = (trackFrames kind g.items).map FrameData.sample) :
    TrackRecovered kind g.all outs pending ↔
      ∀ f ∈ trackFrames kind (g.closed.map ClosedGroup.items).flatten, 0 ≤ f.offset.toInt := by
  rw [TrackRecovered, h.readTracks kind hsize, Option.elim_some, g.all_eq_flatten]
  refine recovers_iff kind ?_ _
  rw [hpending, map_map]
  rfl

end Recovered

/-- **Frames are recovered.** After every run of a configured segmenter whose segments stay below
2 GiB, the closed segments and the pending samples are the pushed frames, exactly if no frame
of a closed segment has a negative composition offset. -/
theorem framesRecovered_iff (p : Profile) (segmentDuration partDuration : Float) (llHls : Bool)
    (video : H264Config) (audio : AacConfig) (frames : List FrameData) (outs : List SegmenterOutput)
    (s : LiveSegmenter) (hrun : SegmenterRun p (fun s f => s.EndsSegment p f → s.SmallSegment)
      (configured segmentDuration partDuration llHls video audio) frames outs s) :
    (p = .release → ∀ f, Returns (s.pushFrame p f)) ∧
    (FramesRecovered frames outs s ↔
      ∀ f ∈ frames.take (frames.length - s.pendingCount), 0 ≤ f.offset.toInt) := by
  -- the frames of a run are grouped as its segments are
  obtain ⟨g, hg, rfl, -, hsize, -⟩ := exists_grouping hrun fun _ _ hC hends => hC hends
  refine ⟨fun hp f => hp ▸ LiveSegmenter.returns_pushFrame_release s f, ?_⟩
  have hnumbers : (closedSegments outs).map (·.sequence) = counting 64 0
      (closedSegments outs).length := by
    rw [← collected_fst, map_map, length_map]
    exact hg.numbers.trans (by rw [hg.closed.length_eq])
  -- the frames that are not pending are those of the closed groups
  have hcount : s.pendingCount = g.items.length := by
    rw [LiveSegmenter.pendingCount, hg.segment.video, hg.segment.audio, length_map, length_map,
      length_trackFrames]
  rw [hcount, g.all_eq_flatten, length_append, Nat.add_sub_cancel, take_left, ← g.all_eq_flatten,
    FramesRecovered, hg.trackRecovered_iff .video hsize hg.segment.video,
    hg.trackRecovered_iff .audio hsize hg.segment.audio, and_iff_left hnumbers]
  exact forall_mem_trackFrames.symm

def baseline : H264Config := ⟨[0x67], [0x68], 16, 16, 66, 30, 90000⟩

def aac48000 : AacConfig := ⟨[0x11, 0x90], 48000, 2, 48000⟩

def videoFrame (dts pts : UInt64) (isKeyframe : Bool) :
    FrameData := ⟨.video, [1], dts, pts, isKeyframe⟩

def audioFrame (dts : UInt64) : FrameData := ⟨.audio, [2], dts, dts, true⟩

/-- A keyframe, a frame that is shown `shift` ticks after the keyframe, and six seconds later
the keyframe that ends the segment. -/
def reordered (shift : UInt64) : List FrameData :=
  [videoFrame 0 0 true, videoFrame 3000 shift false, videoFrame 540000 540000 true]

theorem framesRecovered_reordered :
    ∃ outs s, SegmenterRun .release (fun s f => s.EndsSegment .release f → s.SmallSegment)
        (configured 6.0 0.5 true baseline aac48000) (reordered 6000) outs s ∧
      (FramesRecovered (reordered 6000) outs s ↔
        ∀ f ∈ (reordered 6000).take ((reordered 6000).length - s.pendingCount),
          0 ≤ f.offset.toInt) := by
  obtain ⟨outs, s, hrun, -⟩ := exists_run .release (fun s _ => s.SmallSegment)
    (configured 6.0 0.5 true baseline aac48000) (reordered 6000) (fun _ => true) (by decide +kernel)
  have hrun := hrun.mono (fun s f => s.EndsSegment .release f → s.SmallSegment)
    fun _ _ hsmall _ => of_decide_eq_true hsmall
  exact ⟨outs, s, hrun, (framesRecovered_iff _ _ _ _ _ _ _ _ _ hrun).2⟩

/-- A frame that is shown before it is decoded comes back with an offset of 4294964296. -/
theorem framesRecovered_negative_fails :
    ∃ outs s, SegmenterRun .release (fun _ _ => True) (configured 6.0 0.5 true baseline aac48000)
        (reordered 0) outs s ∧ ¬ FramesRecovered (reordered 0) outs s := by
  obtain ⟨outs, s, hrun, hnot⟩ := exists_run .release (fun _ _ => true)
    (configured 6.0 0.5 true baseline aac48000) (reordered 0)
    (fun r => ¬ FramesRecovered (reordered 0) r.1 r.2) (by decide +kernel)
  exact ⟨outs, s, hrun.mono _ fun _ _ _ => trivial, of_decide_eq_true hnot⟩

/-! ## Parts make up their segment -/

def readSamples (kind : TrackKind) (data : Bytes) : Option (List LiveSampleView) :=
  (readTrack kind data).map (·.samples)

/-- The parts are numbered from 0, and their samples, one part behind the other, are the samples
of the segment. -/
def PartsMatch (segment : CompletedSegment) (parts : List CompletedPart) : Prop :=
  parts.map (·.index) = counting 32 0 parts.length ∧
    ∀ kind ∈ [TrackKind.video, .audio], (readSamples kind segment.data).isSome ∧
      (parts.mapM fun part => readSamples kind part.data).map List.flatten
        = readSamples kind segment.data

instance (segment : CompletedSegment) (parts : List CompletedPart) :
    Decidable (PartsMatch segment parts) := inferInstanceAs (Decidable (_ ∧ _))

/-- The parts of every closed segment make up the segment, and what is pending for the open part
belongs to the open segment. -/
def PartsPartition (outs : List SegmenterOutput) (s : LiveSegmenter) : Prop :=
  (∀ x ∈ (collected outs).1, PartsMatch x.1 x.2) ∧
    s.part.videoSamples <:+ s.segment.videoSamples ∧ s.part.audioSamples <:+ s.segment.audioSamples

instance (outs : List SegmenterOutput) (s : LiveSegmenter) : Decidable (PartsPartition outs s) :=
  inferInstanceAs (Decidable (_ ∧ _ ∧ _))

theorem readSamples_of_isFragment {group : List FrameData} {data : Bytes}
    (h : IsFragment p group data) (hsize : groupSize group < 2 ^ 31) :
    readSamples kind data = some ((trackFrames kind group).map FrameData.received) := by
  rw [readSamples, readTrack_of_isFragment kind h hsize]
  rfl

theorem readSamples_parts {groups : List (List FrameData)} {parts : List CompletedPart}
    (h : List.Forall₂ (fun group part => IsFragment p group part.data) groups parts)
    (hsize : ∀ group ∈ groups, groupSize group < 2 ^ 31) :
    (parts.mapM fun part => readSamples kind part.data).map List.flatten
      = some ((trackFrames kind groups.flatten).map FrameData.received) := by
  induction h with
  | nil => rfl
  | @cons group part groups parts hpart _ ih =>
    obtain ⟨hsmall, hsize⟩ := forall_mem_cons.1 hsize
    obtain ⟨rest, hrest, hflat⟩ := Option.map_eq_some_iff.1 (ih hsize)
    rw [mapM_cons, readSamples_of_isFragment kind hpart hsmall, hrest, flatten_cons,
      trackFrames_append, map_append, ← hflat]
    rfl

theorem SegmentOf.partsMatch {c : ClosedGroup FrameData}
    {x : CompletedSegment × List CompletedPart} (h : SegmentOf p c x)
    (hsize : groupSize c.items < 2 ^ 31) (halign : c.pieces.flatten = c.items) :
    PartsMatch x.1 x.2 := by
  have hpieces : ∀ piece ∈ c.pieces, groupSize piece < 2 ^ 31 := by
    intro piece hpiece
    have hsub : piece.Sublist c.items := halign ▸ sublist_flatten_of_mem hpiece
    exact Nat.lt_of_le_of_lt (groupSize_mono hsub) hsize
  refine ⟨h.parts.indices, fun kind _ => ?_⟩
  rw [readSamples_of_isFragment kind h.fragment hsize,
    readSamples_parts kind h.parts.fragments hpieces,
    halign]
  exact ⟨rfl, rfl⟩

/-- A condition on the frames that end a segment: the segment is below 2 GiB, and the open part
has video. -/
def PartHasVideo (p : Profile) (s : LiveSegmenter) (frame : FrameData) : Prop :=
  s.EndsSegment p frame → s.SmallSegment ∧ s.part.videoSamples ≠ []

/-- **Parts partition their segment.** This holds after every run of a low-latency segmenter that
never ends a segment while audio is pending alone. -/
theorem parts_partition (p : Profile) (segmentDuration partDuration : Float) (video : H264Config)
    (audio : AacConfig) (frames : List FrameData) (outs : List SegmenterOutput) (s : LiveSegmenter)
    (hrun : SegmenterRun p (PartHasVideo p)
      (configured segmentDuration partDuration true video audio) frames outs s) :
    PartsPartition outs s := by
  obtain ⟨g, hg, -, -, hsize, halign⟩ := exists_grouping hrun fun _ _ hC hends => (hC hends).1
  have halign := halign rfl fun _ _ hC hends => (hC hends).2
  have hsuffix : ∀ kind, trackFrames kind g.piece <:+ trackFrames kind g.items := by
    intro kind
    rw [← halign.current, trackFrames_append]
    exact suffix_append ..
  refine ⟨?_, ?_, ?_⟩
  · intro x hx
    obtain ⟨c, hc, hcx⟩ := exists_of_mem_right hg.closed hx
    exact hcx.partsMatch (hsize c hc) (halign.closed c hc)
  · rw [hg.part.video, hg.segment.video]
    exact (hsuffix .video).map _
  · rw [hg.part.audio, hg.segment.audio]
    exact (hsuffix .audio).map _

/-- A frame that cannot end a segment with audio pending alone. -/
def keepsVideo (s : LiveSegmenter) (frame : FrameData) : Bool :=
  s.SmallSegment ∧ (frame.isKeyframe → s.segment.videoSamples ≠ [] → s.part.videoSamples ≠ [])

theorem parts_partition_reordered : ∃ outs s, SegmenterRun .release (PartHasVideo .release)
        (configured 6.0 0.5 true baseline aac48000) (reordered 6000) outs s ∧
      PartsPartition outs s := by
  obtain ⟨outs, s, hrun, -⟩ := exists_run .release keepsVideo
    (configured 6.0 0.5 true baseline aac48000) (reordered 6000) (fun _ => true) (by decide +kernel)
  have hrun := hrun.mono (PartHasVideo .release) fun s f hkeeps hends => by
    obtain ⟨elapsed, -, hcuts⟩ := hends
    obtain ⟨-, hkey, -, hvideo, -⟩ := of_decide_eq_true hcuts
    obtain ⟨hsmall, hpart⟩ := of_decide_eq_true hkeeps
    exact ⟨hsmall, hpart hkey hvideo⟩
  exact ⟨outs, s, hrun, parts_partition _ _ _ _ _ _ _ _ hrun⟩

/-- One second of audio closes the part with the keyframe; the next keyframe ends the segment
with the audio in no part of it. -/
theorem parts_partition_audio_fails :
    ∃ outs s, SegmenterRun .release (fun _ _ => True) (configured 6.0 0.5 true baseline aac48000)
        [videoFrame 0 0 true, audioFrame 48000, videoFrame 540000 540000 true] outs s ∧
      ¬ PartsPartition outs s := by
  obtain ⟨outs, s, hrun, hnot⟩ := exists_run .release (fun _ _ => true)
    (configured 6.0 0.5 true baseline aac48000)
    [videoFrame 0 0 true, audioFrame 48000, videoFrame 540000 540000 true]
    (fun r => ¬ PartsPartition r.1 r.2) (by decide +kernel)
  exact ⟨outs, s, hrun.mono _ fun _ _ _ => trivial, of_decide_eq_true hnot⟩

end Nozdormu.Ingest
