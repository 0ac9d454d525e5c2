import Nozdormu.Ingest.FrameRecovery
import Nozdormu.Ingest.Live

/-!
# The numbers of a live stream

Players address segments and parts by number, so the numbers have to be exact: the kept
segments are numbered on from the media sequence up to the segment in progress, its parts from
0, and the media sequence never goes back (`live_numbering`).
-/

namespace Nozdormu.Ingest

open Rust Bmff Packaging Data Relation List

/-- The segment counter has not wrapped. -/
def SegmentsCounted (p : Profile) (live : Live) : Prop := p = .release → live.completed < 2 ^ 64

/-- The part counter has not wrapped. -/
def PartsCounted (p : Profile) (live : Live) : Prop :=
  p = .release → live.stream.currentParts.length ≤ 2 ^ 32

section Numbering

variable {p : Profile} {live live' : Live}

section

variable (h : LiveInv p live)
include h

theorem LiveInv.completed_lt (hcounted : SegmentsCounted p live) : live.completed < 2 ^ 64 := by
  cases p with
  | dev => exact (h.checked rfl).1
  | release => exact hcounted rfl

theorem LiveInv.parts_le (hcounted : PartsCounted p live) :
    live.stream.currentParts.length ≤ 2 ^ 32 := by
  cases p with
  | dev => exact Nat.le_of_lt (h.checked rfl).2
  | release => exact hcounted rfl

theorem LiveInv.media_eq (hlt : live.completed < 2 ^ 64) :
    live.stream.mediaSequence = live.completed - live.stream.segments.length := by
  rw [h.media]
  exact Nat.mod_eq_of_lt (Nat.lt_of_le_of_lt (Nat.sub_le ..) hlt)

theorem LiveInv.current_eq (hlt : live.completed < 2 ^ 64) :
    live.stream.currentPartSequence = live.completed := by
  rw [h.current, Nat.mod_eq_of_lt hlt]

theorem LiveInv.sequence_eq (hlt : live.completed < 2 ^ 64) {i : Nat}
    {seg : LiveSegment} (hseg : live.stream.segments[i]? = some seg) :
    seg.sequence = live.stream.mediaSequence + i := by
  have hi : i < live.stream.segments.length := (List.getElem?_eq_some_iff.1 hseg).1
  have hle := h.kept_le
  rw [h.media_eq hlt, eq_of_map_eq_counting h.sequences hseg]
  exact Nat.mod_eq_of_lt (by omega)

theorem LiveInv.sequence_mem (hlt : live.completed < 2 ^ 64) {seg : LiveSegment}
    (hseg : seg ∈ live.stream.segments) :
    live.stream.mediaSequence ≤ seg.sequence ∧ seg.sequence < live.completed := by
  obtain ⟨i, hi⟩ := List.getElem?_of_mem hseg
  have hlen := (List.getElem?_eq_some_iff.1 hi).1
  have hle := h.kept_le
  rw [h.sequence_eq hlt hi]
  refine ⟨Nat.le_add_right .., ?_⟩
  rw [h.media_eq hlt]
  omega

theorem LiveInv.index_eq {i : Nat} {part : LivePart}
    (hpart : live.stream.currentParts[i]? = some part) : part.index = i % 2 ^ 32 := by
  rw [eq_of_map_eq_counting h.indices hpart, Nat.zero_add]

end

theorem path_of_ingest (h : ReflTransGen (IngestStep p) live live') :
    ReflTransGen (LiveStep p) live live' :=
  ReflTransGen.mono (fun _ _ => .ingest) _ _ h

def Live.evicted (live : Live) : Nat := live.completed - live.stream.segments.length

theorem StreamChange.mono (h : StreamChange live live') :
    live.completed ≤ live'.completed ∧ live.evicted ≤ live'.evicted := by
  unfold Live.evicted
  cases h with
  | quiet hsegments _ hcompleted | part _ hsegments _ hcompleted =>
    rw [hsegments, hcompleted]
    exact ⟨Nat.le_refl _, Nat.le_refl _⟩
  | segment seg _ hsegments _ hcompleted =>
    rw [hsegments, hcompleted, length_drop, length_append, length_singleton]
    omega

theorem LiveInv.completed_le (h : LiveInv p live) (hstep : LiveStep p live live') :
    live.completed ≤ live'.completed := (hstep.change h).2.2.mono.1

theorem LiveInv.grows_or_closes (h : LiveInv p live) (hstep : LiveStep p live live') :
    (∃ new, live'.stream.segments = live.stream.segments ∧
        live'.stream.currentPartSequence = live.stream.currentPartSequence ∧
        live'.stream.currentParts = live.stream.currentParts ++ new) ∨
      ∃ seg : LiveSegment, seg.sequence = live.completed % 2 ^ 64 ∧
        live'.stream.segments = (live.stream.segments ++ [seg]).drop
          (live.stream.segments.length + 1 - live.stream.maxSegments) ∧
        live'.completed = live.completed + 1 := by
  have hcurrent : live'.completed = live.completed →
      live'.stream.currentPartSequence = live.stream.currentPartSequence := by
    intro hsame
    rw [h.current, (h.step hstep).current, hsame]
  obtain ⟨-, -, hchange⟩ := hstep.change h
  cases hchange with
  | quiet hsegments hparts hcompleted =>
    exact Or.inl ⟨[], hsegments, hcurrent hcompleted, hparts.trans (append_nil _).symm⟩
  | part new hsegments hparts hcompleted =>
    exact Or.inl ⟨[new], hsegments, hcurrent hcompleted, hparts⟩
  | segment seg hsequence hsegments _ hcompleted =>
    exact Or.inr ⟨seg, hsequence, hsegments, hcompleted⟩

theorem LiveInv.path (h : LiveInv p live) (hpath : ReflTransGen (LiveStep p) live live') :
    LiveInv p live' ∧ live.completed ≤ live'.completed ∧ live.evicted ≤ live'.evicted ∧
      live'.stream.maxSegments = live.stream.maxSegments ∧
      live'.stream.llHlsEnabled = live.stream.llHlsEnabled := by
  induction hpath with
  | refl => exact ⟨h, Nat.le_refl _, Nat.le_refl _, rfl, rfl⟩
  | tail _ hstep ih =>
    obtain ⟨hinv, hcompleted, hevicted, hmax, hll⟩ := ih
    obtain ⟨hmax', hll', hchange⟩ := hstep.change hinv
    exact ⟨hinv.step hstep, hcompleted.trans hchange.mono.1, hevicted.trans hchange.mono.2,
      hmax'.trans hmax, hll'.trans hll⟩

theorem kept_le_max {segmentDuration partDuration : Float} {llHls : Bool} {maxSegments : Nat}
    (h : Reachable p segmentDuration partDuration llHls maxSegments live) :
    live.stream.segments.length ≤ maxSegments := by
  obtain ⟨hinv, -, -, hmax, -⟩ :=
    (liveInv_start p segmentDuration partDuration llHls maxSegments).path h
  rw [hinv.kept, hmax]
  exact Nat.min_le_right ..

end Numbering

/-! ## Streams without end -/

theorem exists_frame_step (live : Live) (frame : FrameData) :
    ∃ out segmenter stream, live.segmenter.Pushed .release frame out segmenter ∧
      applySegmenterOutput .release live.stream out = .ok stream ∧
      IngestStep .release live
        ⟨segmenter, stream, live.completed + out.completedSegment.toList.length⟩ := by
  obtain ⟨⟨out, segmenter⟩, hpush⟩ := live.segmenter.returns_pushFrame_release frame
  obtain ⟨stream, happly⟩ := returns_applySegmenterOutput_release live.stream out
  exact ⟨out, segmenter, stream, LiveSegmenter.pushed_of_pushFrame hpush, happly,
    .frame hpush happly⟩

def Live.withVideo (live : Live) : Live :=
  { live with segmenter := live.segmenter.setVideoConfig baseline }

theorem exists_reachable {p : Profile} {maxSegments : Nat} {frames : List FrameData}
    {q : Live → Bool}
    (h : ((Live.start 6.0 0.5 true maxSegments).withVideo.pushFrames p (fun _ _ => true) frames).any
      q = true) :
    ∃ live, Reachable p 6.0 0.5 true maxSegments live ∧ q live = true := by
  obtain ⟨live, hpath, hq⟩ := exists_path (R := LiveStep p) (fun _ _ hstep _ => .ingest hstep) h
  exact ⟨live, .head (.ingest (.videoConfig ..)) hpath, hq⟩

def clock (dts : UInt64) : Exec IngestError Float :=
    (Accumulator.empty.mark 0).elapsed .release dts 90000

variable {s : LiveSegmenter} {dts : UInt64}

theorem elapsed_eq_clock {a : Accumulator}
    (hstart : a.startDts = some 0) (hconfig : s.videoConfig = some baseline) :
    a.elapsed .release dts (s.timescaleOf .video) = clock dts := by
  have hscale : s.timescaleOf .video = 90000 := by
    show (s.videoConfig.map (·.timescale)).getD 90000 = 90000
    rw [hconfig]
    rfl
  rw [hscale, clock, Accumulator.elapsed, hstart]
  rfl

/-- A segment was just closed, and the next one has no start yet. -/
structure BetweenSegments (s : LiveSegmenter) : Prop where
  duration : s.segmentDuration = 6.0
  plain : s.llHlsEnabled = false
  config : s.videoConfig = some baseline
  start : s.segment.startDts = none

theorem endsSegment_iff (elapsed : Float) (hstart : s.segment.startDts.or (some dts) = some 0)
    (hconfig : s.videoConfig = some baseline) (hclock : clock dts = .ok elapsed) :
    s.EndsSegment .release (videoFrame dts dts true) ↔
      s.segment.videoSamples ≠ [] ∧ s.segmentDuration ≤ elapsed := by
  have helapsed : (s.start (videoFrame dts dts true)).segment.elapsed .release dts
      ((s.start (videoFrame dts dts true)).timescaleOf .video) = .ok elapsed :=
    (elapsed_eq_clock hstart hconfig).trans hclock
  constructor
  · rintro ⟨elapsed', helapsed', hcuts⟩
    obtain rfl := ok_unique helapsed helapsed'
    obtain ⟨-, -, -, hvideo, hdue⟩ := of_decide_eq_true hcuts
    exact ⟨hvideo, hdue⟩
  · rintro ⟨hvideo, hdue⟩
    exact ⟨elapsed, helapsed,
      decide_eq_true ⟨rfl, rfl, Option.isSome_of_eq_some hstart, hvideo, hdue⟩⟩

theorem BetweenSegments.first {live : Live} (h : BetweenSegments live.segmenter) :
    ∃ live', IngestStep .release live live' ∧ live'.completed = live.completed ∧
      live'.segmenter = (live.segmenter.start (videoFrame 0 0 true)).addSample (videoFrame 0 0 true)
        (videoFrame 0 0 true).sample := by
  obtain ⟨out, s, stream, hpush, -, hstep⟩ := exists_frame_step live (videoFrame 0 0 true)
  cases hpush with
  | keep => exact ⟨_, hstep, rfl, rfl⟩
  | part _ hends _ => exact absurd (h.plain.symm.trans hends.llHls) Bool.false_ne_true
  | segment hends _ =>
    -- no time has passed yet
    obtain ⟨-, hdue⟩ := (endsSegment_iff 0.0 (by rw [h.start]; rfl) h.config (by decide +kernel)).1
      hends
    rw [h.duration] at hdue
    exact absurd hdue (by decide +kernel)

theorem BetweenSegments.next {live : Live} (h : BetweenSegments live.segmenter) :
    ∃ live', ReflTransGen (IngestStep .release) live live' ∧ BetweenSegments live'.segmenter ∧
      live'.completed = live.completed + 1 := by
  obtain ⟨live₁, hstep₁, hcompleted, hsegmenter⟩ := h.first
  obtain ⟨out, s, stream, hpush, -, hstep⟩ := exists_frame_step live₁
    (videoFrame 540000 540000 true)
  have hends : live₁.segmenter.EndsSegment .release (videoFrame 540000 540000 true) := by
    rw [hsegmenter]
    refine (endsSegment_iff 6.0 ?_ ?_ ?_).2 ⟨?_, ?_⟩
    · show (live.segmenter.segment.startDts.or (some 0)).or _ = some 0
      rw [h.start]
      rfl
    · exact h.config
    · decide +kernel
    · exact append_ne_nil_of_right_ne_nil _ (cons_ne_nil _ _)
    · show live.segmenter.segmentDuration ≤ 6.0
      rw [h.duration]
      decide +kernel
  cases hpush with
  | keep hnot | part hnot => exact absurd hends hnot
  | segment _ hcut =>
    obtain ⟨last, piece, n, -, -, -, rfl⟩ := hcut.state
    refine ⟨_, .tail (.single hstep₁) hstep, ?_, congrArg (· + 1) hcompleted⟩
    rw [hsegmenter]
    exact ⟨h.duration, h.plain, h.config, rfl⟩

theorem exists_segments_from (live : Live) (h : BetweenSegments live.segmenter) (n : Nat) :
    ∃ live', ReflTransGen (IngestStep .release) live live' ∧ BetweenSegments live'.segmenter ∧
      live'.completed = live.completed + n := by
  induction n with
  | zero => exact ⟨live, .refl, h, rfl⟩
  | succ n ih =>
    obtain ⟨mid, hpath, hmid, hcompleted⟩ := ih
    obtain ⟨live', hpath', hlive', hcompleted'⟩ := hmid.next
    exact ⟨live', hpath.trans hpath', hlive', by omega⟩

theorem exists_segments (maxSegments n : Nat) :
    ∃ live, ReflTransGen (IngestStep .release) (.start 6.0 0.5 false maxSegments) live ∧
      BetweenSegments live.segmenter ∧ live.completed = n := by
  obtain ⟨live, hpath, hlive, hcompleted⟩ := exists_segments_from
    (Live.start 6.0 0.5 false maxSegments).withVideo ⟨rfl, rfl, rfl, rfl⟩ n
  exact ⟨live, .head (.videoConfig ..) hpath, hlive, hcompleted.trans (Nat.zero_add n)⟩

/-- A part was just closed, the next one has these samples, but no start yet. -/
structure BetweenParts (s : LiveSegmenter) (samples : List LiveSample) (base : UInt64) : Prop where
  duration : s.partDuration = 0.5
  llHls : s.llHlsEnabled = true
  video : s.videoConfig = some baseline
  audio : s.audioConfig = none
  samples_eq : s.part.videoSamples = samples
  base_eq : s.part.videoBaseDts = base
  start : s.part.startDts = none

def VideoFragment (samples : List LiveSample) (base : UInt64) (data : Bytes) : Prop :=
  ∃ seq, (generateLiveMediaSegment .release seq [⟨1, base, computeDurations samples⟩] :
    Exec IngestError Bytes) = .ok data

theorem not_endsSegment {p : Profile} {pts : UInt64} :
    ¬ s.EndsSegment p (videoFrame dts pts false) := by
  rintro ⟨elapsed, -, hcuts⟩
  obtain ⟨-, hkey, -⟩ := of_decide_eq_true hcuts
  exact absurd hkey Bool.false_ne_true

theorem endsPart_iff (elapsed : Float) (hstart : s.part.startDts.or (some dts) = some 0)
    (hll : s.llHlsEnabled = true) (hconfig : s.videoConfig = some baseline)
    (hclock : clock dts = .ok elapsed) :
    s.EndsPart .release (videoFrame dts dts false) ↔
      s.part.videoSamples ≠ [] ∧ s.partDuration ≤ elapsed := by
  have helapsed : (s.start (videoFrame dts dts false)).part.elapsed .release dts
      ((s.start (videoFrame dts dts false)).timescaleOf .video) = .ok elapsed :=
    (elapsed_eq_clock hstart hconfig).trans hclock
  constructor
  · intro h
    obtain ⟨elapsed', helapsed', hdue⟩ := h.due
    obtain rfl := ok_unique helapsed helapsed'
    exact ⟨h.video, hdue⟩
  · rintro ⟨hvideo, hdue⟩
    exact ⟨hll, hvideo, elapsed, helapsed, hdue⟩

section Parts

variable {live : Live} {samples : List LiveSample} {base : UInt64}

theorem BetweenParts.first (h : BetweenParts live.segmenter samples base) :
    ∃ live', IngestStep .release live live' ∧
      live'.stream.currentParts = live.stream.currentParts ∧
      live'.segmenter = (live.segmenter.start (videoFrame 0 0 false)).addSample
      (videoFrame 0 0 false)
        (videoFrame 0 0 false).sample := by
  obtain ⟨out, s, stream, hpush, happly, hstep⟩ := exists_frame_step live (videoFrame 0 0 false)
  cases hpush with
  | keep =>
    cases happly
    exact ⟨_, hstep, live.stream.currentParts_withInit _, rfl⟩
  | segment hends _ => exact absurd hends not_endsSegment
  | part _ hends _ =>
    -- no time has passed yet
    obtain ⟨-, hdue⟩ :=
      (endsPart_iff 0.0 (by rw [h.start]; rfl) h.llHls h.video (by decide +kernel)).1 hends
    rw [h.duration] at hdue
    exact absurd hdue (by decide +kernel)

theorem BetweenParts.next (h : BetweenParts live.segmenter samples base) :
    ∃ live' part, ReflTransGen (IngestStep .release) live live' ∧
      live'.stream.currentParts = live.stream.currentParts ++ [part] ∧
      VideoFragment (samples ++ [(videoFrame 0 0 false).sample])
      (if samples.isEmpty then 0 else base)
        part.data ∧
      BetweenParts live'.segmenter [(videoFrame 45000 45000 false).sample] 45000 := by
  obtain ⟨live₁, hstep₁, hparts, hsegmenter⟩ := h.first
  obtain ⟨out, s, stream, hpush, happly, hstep⟩ :=
    exists_frame_step live₁ (videoFrame 45000 45000 false)
  have hends : live₁.segmenter.EndsPart .release (videoFrame 45000 45000 false) := by
    rw [hsegmenter]
    refine (endsPart_iff 0.5 ?_ ?_ ?_ ?_).2 ⟨?_, ?_⟩
    · show (live.segmenter.part.startDts.or (some 0)).or _ = some 0
      rw [h.start]
      rfl
    · exact h.llHls
    · exact h.video
    · decide +kernel
    · exact append_ne_nil_of_right_ne_nil _ (cons_ne_nil _ _)
    · show live.segmenter.partDuration ≤ 0.5
      rw [h.duration]
      decide +kernel
  cases hpush with
  | keep _ hnot => exact absurd hends hnot
  | segment hends _ => exact absurd hends not_endsSegment
  | @part part _ _ _ hcut =>
    obtain ⟨n, -, rfl⟩ := hcut.state
    obtain ⟨seq, hdata⟩ := hcut.data
    cases happly
    -- the part has what was pending and the frame at 0; the frame that ended it starts the next
    refine ⟨_, part, .tail (.single hstep₁) hstep, ?_, ⟨seq, ?_⟩, ?_⟩
    · show (live₁.stream.withInit _).currentParts ++ [part] = _
      rw [LiveStream.currentParts_withInit, hparts]
    · rw [hsegmenter] at hdata
      change generateLiveMediaSegment .release seq
        (Accumulator.tracks _ live.segmenter.videoConfig live.segmenter.audioConfig) = _ at hdata
      rw [h.video, h.audio] at hdata
      rw [← h.samples_eq, ← h.base_eq]
      exact hdata
    · rw [hsegmenter]
      exact ⟨h.duration, h.llHls, h.video, h.audio, rfl, rfl, rfl⟩

theorem exists_parts (maxSegments n : Nat) :
    ∃ live first rest, ReflTransGen (IngestStep .release) (.start 6.0 0.5 true maxSegments) live ∧
      live.stream.currentParts = first :: rest ∧ rest.length = n ∧
      VideoFragment [(videoFrame 0 0 false).sample] 0 first.data ∧
      (∀ part ∈ rest, VideoFragment
        [(videoFrame 45000 45000 false).sample, (videoFrame 0 0 false).sample] 45000 part.data) ∧
      BetweenParts live.segmenter [(videoFrame 45000 45000 false).sample] 45000 := by
  induction n with
  | zero =>
    have hbetween : BetweenParts (Live.start 6.0 0.5 true maxSegments).withVideo.segmenter [] 0 :=
      ⟨rfl, rfl, rfl, rfl, rfl, rfl, rfl⟩
    obtain ⟨live, part, hpath, hparts, hdata, hnext⟩ := hbetween.next
    exact ⟨live, part, [], .head (.videoConfig ..) hpath, hparts, rfl, hdata, by simp, hnext⟩
  | succ n ih =>
    obtain ⟨live, first, rest, hreach, hparts, hlen, hfirst, hrest, hbetween⟩ := ih
    obtain ⟨live', part, hpath, hparts', hdata, hnext⟩ := hbetween.next
    refine ⟨live', first, rest ++ [part], hreach.trans hpath, ?_, ?_, hfirst, ?_, hnext⟩
    · rw [hparts', hparts, cons_append]
    · rw [length_append, hlen, length_singleton]
    · intro q hq
      rcases mem_append.1 hq with hq | hq
      · exact hrest q hq
      · obtain rfl := mem_singleton.1 hq
        exact hdata

end Parts

/-! ## The numbers are exact until a counter wraps -/

/-- Segments are numbered from the media sequence to the one in progress, parts from 0, and
the media sequence only grows, as long as no counter has wrapped. -/
theorem live_numbering {p : Profile} {live : Live} {segmentDuration partDuration : Float}
    {llHls : Bool} {maxSegments : Nat}
    (h : Reachable p segmentDuration partDuration llHls maxSegments live) :
    live.stream.segments.length ≤ maxSegments ∧
      live.stream.nextSequence = live.stream.currentPartSequence ∧
      (SegmentsCounted p live →
        (∀ i seg, live.stream.segments[i]? = some seg →
          seg.sequence = live.stream.mediaSequence + i) ∧
        live.stream.mediaSequence + live.stream.segments.length = live.stream.nextSequence) ∧
      (PartsCounted p live →
        ∀ i (part : LivePart), live.stream.currentParts[i]? = some part → part.index = i) ∧
      ∀ later, ReflTransGen (LiveStep p) live later → SegmentsCounted p later →
        live.stream.mediaSequence ≤ later.stream.mediaSequence := by
  have hinv := liveInv_of_reachable h
  refine ⟨kept_le_max h, hinv.next.trans hinv.current.symm, ?_, ?_, ?_⟩
  · intro hcounted
    have hlt := hinv.completed_lt hcounted
    refine ⟨fun i seg hseg => hinv.sequence_eq hlt hseg, ?_⟩
    have hle := hinv.kept_le
    rw [hinv.media_eq hlt, hinv.next, Nat.mod_eq_of_lt hlt]
    omega
  · intro hcounted i part hpart
    have hle := hinv.parts_le hcounted
    have hi := (List.getElem?_eq_some_iff.1 hpart).1
    rw [hinv.index_eq hpart]
    exact Nat.mod_eq_of_lt (by omega)
  · intro later hpath hcounted
    obtain ⟨hinv', hcompleted, hevicted, -⟩ := hinv.path hpath
    have hlt' := hinv'.completed_lt hcounted
    have hlt : live.completed < 2 ^ 64 := Nat.lt_of_le_of_lt hcompleted hlt'
    -- the media sequence counts the evictions
    rw [hinv.media_eq hlt, hinv'.media_eq hlt']
    exact hevicted

/-- Three segments into a stream. -/
theorem live_numbering_three : ∃ live, Reachable .release 6.0 0.5 false 10 live ∧
    live.completed = 3 ∧
      live.stream.mediaSequence + live.stream.segments.length = live.stream.nextSequence := by
  obtain ⟨live, hpath, -, hcompleted⟩ := exists_segments 10 3
  have hreach : Reachable .release 6.0 0.5 false 10 live := path_of_ingest hpath
  have hcounted : SegmentsCounted .release live := fun _ => by omega
  exact ⟨live, hreach, hcompleted, ((live_numbering hreach).2.2.1 hcounted).2⟩

/-- After `2 ^ 64` segments the sequence numbers begin anew, and the media sequence ten segments
later; after `2 ^ 32` parts of a segment the indices do. -/
theorem live_numbering_wraps : (∃ live later, Reachable .release 6.0 0.5 false 10 live ∧
        ReflTransGen (LiveStep .release) live later ∧
        live.stream.mediaSequence + live.stream.segments.length ≠ live.stream.nextSequence ∧
        later.stream.mediaSequence < live.stream.mediaSequence) ∧
      ∃ live part, Reachable .release 6.0 0.5 true 10 live ∧
        live.stream.currentParts[2 ^ 32]? = some part ∧ CompletedPart.index part = 0 := by
  refine ⟨?_, ?_⟩
  · -- the counter in progress is 0 again, and ten segments later so is the oldest kept one
    obtain ⟨live, hstart, hbetween, hcompleted⟩ := exists_segments 10 (2 ^ 64)
    have hreach : Reachable .release 6.0 0.5 false 10 live := path_of_ingest hstart
    obtain ⟨later, hlate, -, hlater⟩ := exists_segments_from live hbetween 10
    have hpath := path_of_ingest hlate
    have hinv := liveInv_of_reachable hreach
    have hmax : live.stream.maxSegments = 10 := ((liveInv_start ..).path hreach).2.2.2.1
    have hkept : live.stream.segments.length = 10 := by rw [hinv.kept, hcompleted, hmax]; rfl
    obtain ⟨hinv', -, -, hmax', -⟩ := hinv.path hpath
    have hkept' : later.stream.segments.length = 10 := by
      rw [hinv'.kept, hlater, hcompleted, hmax', hmax]
      rfl
    refine ⟨live, later, hreach, hpath, ?_, ?_⟩
    · rw [hinv.media, hinv.next, hkept, hcompleted]
      decide
    · rw [hinv.media, hinv'.media, hkept, hkept', hlater, hcompleted]
      decide
  · obtain ⟨live, first, rest, hpath, hparts, hlen, -⟩ := exists_parts 10 (2 ^ 32)
    have hreach : Reachable .release 6.0 0.5 true 10 live := path_of_ingest hpath
    have hlt : 2 ^ 32 < live.stream.currentParts.length := by
      rw [hparts, length_cons, hlen]
      omega
    obtain ⟨part, hpart⟩ : ∃ part, live.stream.currentParts[2 ^ 32]? = some part :=
      ⟨_, List.getElem?_eq_getElem hlt⟩
    exact ⟨live, part, hreach, hpart, (liveInv_of_reachable hreach).index_eq hpart⟩

end Nozdormu.Ingest
